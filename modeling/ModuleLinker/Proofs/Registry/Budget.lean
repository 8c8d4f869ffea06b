import ModuleLinker.Proofs.Registry.Worklist

/-!
# Why resolution gets to its end

Every module that resolution registers comes from a file of its own, and a file that is registered
is not read again. So the files that are still to be read are a budget that pays for the new slots,
and the fuel of the worklist lasts: if resolution fails, it is because of a spec.
-/
namespace ModuleLinker

/-- A file that can be read under its canonical path is an entry of the file system. -/
theorem FileSystem.exists_entry {fs : FileSystem} {path : String} {bytes : List UInt8}
    (hpath : fs.canonicalize path = .ok path) (hread : fs.read path = .ok bytes) :
    ∃ e ∈ fs.entries, Lexical.render true e.1 = path := by
  simp only [read] at hread
  split at hread
  · cases hread
  · cases hread
  · next place contents hresolve =>
    simp only [canonicalize, hresolve, Except.map, Except.ok.injEq] at hpath
    cases standing_of_resolve hresolve with
    | @child above name _ _ _ _ _ there =>
      simp only [node?, List.append_eq_nil_iff, List.cons_ne_nil, and_false, if_false,
        Option.map_eq_some_iff] at there
      obtain ⟨e, he, -⟩ := there
      have hplace : e.1 = above ++ [name] := by simpa using List.find?_some he
      exact ⟨e, List.mem_of_find?_eq_some he, by rw [hplace, hpath]⟩

namespace Loader

variable {fs : FileSystem} {root id : ModuleId} {worked : ModuleId → Prop} {l l' l'' : Loader}
  {e : LoadError}

/-- Number of the entries of a file system that are not registered as files. -/
def unread (fs : FileSystem) (l : Loader) : Nat :=
  fs.entries.countP fun entry => (l.index.find? (.file (Lexical.render true entry.1))).isNone

theorem unread_le (fs : FileSystem) (l : Loader) : l.unread fs ≤ fs.entries.length :=
  List.countP_le_length

/-- What is registered stays so, and there is nothing more to read. -/
theorem isNone_of_isNone (h : l.Extends fs worked l') (entry : List String × Node)
    (hlater : (l'.index.find? (.file (Lexical.render true entry.1))).isNone) :
    (l.index.find? (.file (Lexical.render true entry.1))).isNone := by
  cases hfound : l.index.find? (.file (Lexical.render true entry.1)) with
  | none => rfl
  | some id => rwa [h.find?_eq_some hfound] at hlater

theorem unread_mono (h : l.Extends fs worked l') : l'.unread fs ≤ l.unread fs :=
  List.countP_mono_left fun entry _ => isNone_of_isNone h entry

/-- An entry that gets registered is one less to be read. -/
theorem unread_lt (h : l.Extends fs worked l') {entry : List String × Node}
    (hentry : entry ∈ fs.entries)
    (hbefore : (l.index.find? (.file (Lexical.render true entry.1))).isNone)
    (hafter : (l'.index.find? (.file (Lexical.render true entry.1))).isSome) :
    l'.unread fs < l.unread fs := by
  obtain ⟨front, back, hsplit⟩ := List.append_of_mem hentry
  have hless (part : List (List String × Node)) :
      (part.countP fun entry => (l'.index.find? (.file (Lexical.render true entry.1))).isNone) ≤
        part.countP fun entry => (l.index.find? (.file (Lexical.render true entry.1))).isNone :=
    List.countP_mono_left fun entry _ => isNone_of_isNone h entry
  have hfront := hless front
  have hback := hless back
  have hnot : (l'.index.find? (.file (Lexical.render true entry.1))).isNone = false := by
    simpa using hafter
  simp only [unread, hsplit, List.countP_append, List.countP_cons, hbefore, hnot, if_true,
    Bool.false_eq_true, if_false]
  omega

/-- A step that fills a slot reads an entry. -/
theorem ResolveStep.length_add_unread_le (h : ResolveStep fs root worked l l') :
    l'.arena.length + l'.unread fs ≤ l.arena.length + l.unread fs := by
  have hext := h.extends
  cases h with
  | @register path bytes d canonical contents decoded fresh =>
    obtain ⟨entry, hentry, rfl⟩ := FileSystem.exists_entry canonical contents
    have hfound := find?_register l
      (.ofDescriptor l.nextId (.file (Lexical.render true entry.1)) d)
    have hlt := unread_lt hext hentry (by rw [fresh]; rfl) (Option.isSome_of_eq_some hfound)
    rw [length_register]
    omega
  | target working there declared means =>
    have hle := unread_mono hext
    simp only [update, Arena.length_update]
    exact Nat.add_le_add_left hle _

theorem length_add_unread_le (h : ResolveSteps fs root worked l l') :
    l'.arena.length + l'.unread fs ≤ l.arena.length + l.unread fs := by
  induction h with
  | refl => exact Nat.le_refl _
  | tail _ hstep ih => exact hstep.length_add_unread_le.trans ih

@[simp] theorem length_newSlots (l l' : Loader) :
    (newSlots l l').length = l'.arena.length - l.arena.length := by simp [newSlots]

/-- What waits after one module was worked on, and what is there to be read by then. -/
theorem length_waiting_add_unread_le {waiting : List ModuleId} {fuel : Nat}
    (h : ResolveSteps fs root worked l l')
    (hfuel : (id :: waiting).length + l.unread fs ≤ fuel + 1) :
    (waiting ++ newSlots l l').length + l'.unread fs ≤ fuel := by
  have hbudget := length_add_unread_le h
  have hle := (extends_of_resolveSteps h).length_le
  rw [List.length_append, length_newSlots]
  rw [List.length_cons] at hfuel
  omega

/-- All of it is in its slot. -/
theorem exists_module?_waiting {waiting : List ModuleId} (h : l.Extends fs worked l')
    (hthere : ∀ id ∈ waiting, ∃ m, l.module? id = some m) :
    ∀ id ∈ waiting ++ newSlots l l', ∃ m, l'.module? id = some m := by
  intro id hid
  rcases List.mem_append.mp hid with hid | hid
  · obtain ⟨m, hm⟩ := hthere id hid
    obtain ⟨k, hk, -⟩ := h.kept id m hm
    exact ⟨k, hk⟩
  · obtain ⟨n, rfl, hn, hlt⟩ := mem_newSlots.mp hid
    exact h.live n hn hlt

/-! ## Where resolution fails -/

/-- A spec that cannot be resolved: it stands for nothing that is or could be registered, or for a
module that may not be depended on. -/
def Refuses (fs : FileSystem) (root : ModuleId) (l : Loader) (requester : ModulePath)
    (spec : String) (e : LoadError) : Prop :=
  l.resolveTarget fs requester spec = .error e ∨
    ∃ target added next, l.resolveTarget fs requester spec = .ok (target, added, next) ∧
      next.isUnbuilt root target = true ∧ e = .dependency spec requester .notBuilt

/-- Resolution has come to a module and refuses one of its specs. -/
def Stuck (fs : FileSystem) (root id : ModuleId) (l : Loader) (e : LoadError) : Prop :=
  ∃ m, l.module? id = some m ∧ ∃ d ∈ m.dependencies, l.Refuses fs root m.path d.spec e

theorem resolveSpecs_error {m : Module} {position : Nat} {specs : List String}
    (hlive : l.IndexLive) (hm : l.Declares id m position specs)
    (h : l.resolveSpecs fs root id m.path position specs = (.error e, l')) :
    ∃ mid, ResolveSteps fs root (· = id) l mid ∧ mid.Stuck fs root id e := by
  induction specs generalizing l m position with
  | nil => cases h
  | cons spec specs ih =>
    obtain ⟨d, hd, rfl⟩ := hm.getElem?
    have hstuck (hrefuses : l.Refuses fs root m.path d.spec e) :
        ∃ mid, ResolveSteps fs root (· = id) l mid ∧ mid.Stuck fs root id e :=
      ⟨l, .refl, m, hm.1, d, List.mem_of_getElem? hd, hrefuses⟩
    cases htarget : l.resolveTarget fs m.path d.spec with
    | error e' =>
      simp only [resolveSpecs, htarget, Prod.mk.injEq, Except.error.injEq] at h
      exact hstuck (.inl (h.1 ▸ htarget))
    | ok found =>
      obtain ⟨target, added, next⟩ := found
      cases hunbuilt : next.isUnbuilt root target with
      | true =>
        simp only [resolveSpecs, htarget, hunbuilt, if_true, Prod.mk.injEq,
          Except.error.injEq] at h
        exact hstuck (.inr ⟨target, added, next, htarget, hunbuilt, h.1.symm⟩)
      | false =>
        rcases resolveSpecs_cons fs root hlive hm with
          ⟨e', left, -, hrest⟩ | ⟨target', next', hsteps, hnext, -, hrest⟩
        · -- The first spec was resolved, so the specs do not fail whatever follows.
          have hnone := hrest []
          simp [resolveSpecs, htarget, hunbuilt] at hnone
        · have hlater : next'.resolveSpecs fs root id m.path (position + 1) specs =
              (.error e, l') := by
            rw [hrest, Prod.mk.injEq] at h
            refine Prod.ext ?_ h.2
            cases hr : (next'.resolveSpecs fs root id m.path (position + 1) specs).1 with
            | error e' => simpa [hr, Except.map] using h.1
            | ok more => simp [hr, Except.map] at h
          obtain ⟨mid, hsteps', hmid⟩ :=
            ih ((extends_of_resolveSteps hsteps).indexLive hlive) hnext hlater
          exact ⟨mid, hsteps.trans hsteps', hmid⟩

/-- With enough fuel the worklist stops early only where it refuses a spec. -/
theorem resolveWaiting_error {fuel : Nat} {waiting : List ModuleId} (hlive : l.IndexLive)
    (hthere : ∀ id ∈ waiting, ∃ m, l.module? id = some m)
    (hfuel : waiting.length + l.unread fs ≤ fuel)
    (h : l.resolveWaiting fs root fuel waiting = (.error e, l')) :
    ∃ mid id, ResolveSteps fs root (fun id => id ∈ waiting ∨ id ∈ newSlots l mid) l mid ∧
      (id ∈ waiting ∨ id ∈ newSlots l mid) ∧ mid.Stuck fs root id e := by
  induction fuel generalizing l waiting with
  | zero =>
    obtain rfl : waiting = [] := List.eq_nil_of_length_eq_zero (by omega)
    cases h
  | succ fuel ih =>
    cases waiting with
    | nil => cases h
    | cons id waiting =>
      obtain ⟨m, hm⟩ := hthere id List.mem_cons_self
      simp only [resolveWaiting, hm] at h
      rcases hspecs : l.resolveSpecs fs root id m.path 0 (m.dependencies.map Dependency.spec) with
        ⟨r, mid⟩
      rw [hspecs] at h
      cases r with
      | error e' =>
        cases h
        obtain ⟨mid, hsteps, hstuck⟩ := resolveSpecs_error hlive ⟨hm, rfl⟩ hspecs
        refine ⟨mid, id, resolveSteps_widen hsteps ?_, .inl List.mem_cons_self, hstuck⟩
        rintro other rfl
        exact .inl List.mem_cons_self
      | ok added =>
        obtain ⟨hsteps, hadded, -⟩ := resolveSpecs_spec hlive ⟨hm, rfl⟩ hspecs
        obtain rfl := hadded added rfl
        have hext := extends_of_resolveSteps hsteps
        have hle := hext.length_le
        have hthere' := exists_module?_waiting hext fun other ho =>
          hthere other (List.mem_cons_of_mem _ ho)
        have hfuel' := length_waiting_add_unread_le hsteps hfuel
        have hrest : mid.resolveWaiting fs root fuel (waiting ++ newSlots l mid) = (.error e, l') := by
          rcases hwaiting : mid.resolveWaiting fs root fuel (waiting ++ newSlots l mid) with
            ⟨r, left⟩
          simp only [hwaiting] at h
          cases r with
          | error e' => exact h
          | ok rest => cases h
        obtain ⟨last, other, hsteps', hother, hstuck⟩ :=
          ih (hext.indexLive hlive) hthere' hfuel' hrest
        refine ⟨last, other, resolveSteps_waiting hsteps hsteps', ?_, hstuck⟩
        have hslots := newSlots_append hle (extends_of_resolveSteps hsteps').length_le
        rw [← hslots]
        simp only [List.mem_append, List.mem_cons] at hother ⊢
        tauto

/-- Resolution of a registered module stops early only where it refuses a spec of a module that it
works on. -/
theorem resolveFrom_error (hlive : l.IndexLive) (hroot : ∃ m, l.module? root = some m)
    (h : l.resolveFrom fs root = (.error e, l')) :
    ∃ mid id, ResolveSteps fs root (fun id => id = root ∨ id ∈ newSlots l mid) l mid ∧
      (id = root ∨ id ∈ newSlots l mid) ∧ mid.Stuck fs root id e := by
  have hfuel : [root].length + l.unread fs ≤ fs.entries.length + 1 := by
    have := unread_le fs l
    rw [List.length_singleton]
    omega
  simpa using resolveWaiting_error hlive (by simpa using hroot) hfuel h

end Loader
end ModuleLinker
