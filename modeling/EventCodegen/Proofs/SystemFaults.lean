import EventCodegen.Files.Replace
import EventCodegen.Proofs.FilePaths

/-! Faults of operations on files. An operation on a path is refused before the system is asked only
if the path has a NUL in it; without one, whatever goes wrong is a fault of the system
(`FileTree.SystemFaults`), down to the cleaning up after a file that could not be replaced. -/
namespace EventCodegen

/-! ## Paths without a NUL -/

/-- A path without a NUL in any of its names. -/
def Path.NulFree (p : Path) : Prop := ∀ part ∈ p.parts, Char.ofNat 0 ∉ part.toList

namespace Path.NulFree

variable {p q : Path}

theorem not_mem_text (hp : p.NulFree) : Char.ofNat 0 ∉ p.text.toList := by
  unfold text
  split
  · decide
  · have hstart : Char.ofNat 0 ∉ (Start.text p.start).toList := by
      cases p.start <;> decide
    rw [String.toList_append, List.mem_append, not_or]
    exact ⟨hstart, Text.not_mem_joined (by decide) hp⟩

theorem parent (hp : p.NulFree) : p.parent.NulFree :=
  fun part hpart => hp part (List.dropLast_subset _ hpart)

theorem join (hp : p.NulFree) (hq : q.NulFree) : (p.join q).NulFree := forall_parts_join hp hq

theorem extended {ending : String} (hp : p.NulFree) (hending : Char.ofNat 0 ∉ ending.toList)
    (h : p.extended ending = some q) : q.NulFree := by
  unfold Path.extended at h
  split at h
  · cases h
  · next hne =>
    cases h
    refine List.forall_mem_append.mpr ⟨hp.parent, List.forall_mem_singleton.mpr ?_⟩
    have hname : p.name ∈ p.parts := by
      rw [← parts_eq hne]
      exact List.mem_append_right _ (List.mem_singleton_self _)
    rw [String.toList_append, List.mem_append, not_or]
    exact ⟨hp _ hname, hending⟩

end Path.NulFree

/-! ## Operations -/

namespace FileTree

variable {α : Type}

/-- An operation that fails with faults of the system only. -/
def SystemFaults (x : Except FileError α) : Prop := ∀ e, x = .error e → e.fault.isSystem = true

theorem isSystem_of_walk {t : FileTree} {fault : FileFault} {names : List String} {here : Place}
    (h : t.walk here names = .error fault) : fault.isSystem = true := by
  induction names generalizing here with
  | nil => cases h
  | cons name rest ih =>
    unfold walk at h
    split at h
    · cases h
      rfl
    · cases h
      rfl
    · split at h
      · exact ih h
      · split at h
        · cases h
          rfl
        · exact ih h

variable {t : FileTree} {p : Path}

theorem isSystem_of_find (hp : p.NulFree) {fault : FileFault} (h : t.find p = .error fault) :
    fault.isSystem = true := by
  unfold find at h
  split at h
  · next hnul =>
    obtain ⟨c, hc, heq⟩ := List.any_eq_true.mp hnul
    exact absurd (beq_iff_eq.mp heq ▸ hc) hp.not_mem_text
  · split at h
    · cases h
      rfl
    · exact isSystem_of_walk h

/-- A path with a NUL in it leads nowhere. -/
theorem systemFaults_present (t : FileTree) (p : Path) : SystemFaults (t.present p) := by
  intro e h
  unfold present at h
  split at h
  · cases h
  · cases h
    rfl
  · cases h

theorem systemFaults_makeDirectory (hp : p.NulFree) : SystemFaults (t.makeDirectory p) := by
  intro e h
  unfold makeDirectory at h
  split at h
  · next hfind =>
    cases h
    exact isSystem_of_find hp hfind
  · split at h
    · cases h
      rfl
    · cases h

theorem systemFaults_settle {e : FileError} (he : e.fault.isSystem = true) :
    SystemFaults (makeDirectories.settle p t e) := by
  intro e' h
  unfold makeDirectories.settle hasDirectory at h
  split at h
  · split at h
    · cases h
    · cases h
      exact he
    · next hstat =>
      cases h
      split at hstat
      · cases hstat
      · cases hstat
        rfl
      · cases hstat
  · cases h
    exact he

theorem systemFaults_makeDirectories {t : FileTree} {p : Path} (hp : p.NulFree) :
    SystemFaults (t.makeDirectories p).1 := by
  -- the recursion goes from a path to its parent
  induction hlength : p.parts.length using Nat.strongRecOn generalizing p with
  | _ n ih =>
    subst hlength
    unfold makeDirectories
    cases hmade : t.makeDirectory p with
    | ok made => nofun
    | error e =>
      have he := systemFaults_makeDirectory hp e hmade
      dsimp only
      split
      · next hmissing =>
        have hpos := List.length_pos_iff.mpr hmissing.2
        have hless : p.parent.parts.length < p.parts.length := by
          rw [Path.parent, List.length_dropLast]
          omega
        have hparent := ih _ hless hp.parent rfl
        rcases hrun : t.makeDirectories p.parent with ⟨e' | _, t₁⟩
        · rw [hrun] at hparent
          exact hparent
        · dsimp only
          cases hagain : t₁.makeDirectory p with
          | ok made => nofun
          | error e' => exact systemFaults_settle (systemFaults_makeDirectory hp e' hagain)
      · exact systemFaults_settle he

theorem systemFaults_write (hp : p.NulFree) (bytes : List UInt8) :
    SystemFaults (t.write p bytes) := by
  intro e h
  unfold write at h
  split at h
  · next hfind =>
    cases h
    exact isSystem_of_find hp hfind
  · split at h
    · cases h
      rfl
    · cases h

theorem systemFaults_remove (hp : p.NulFree) : SystemFaults (t.remove p) := by
  intro e h
  unfold remove at h
  split at h
  · cases h
  · next hfind =>
    cases h
    exact isSystem_of_find hp hfind
  · split at h
    · cases h
    · cases h
      rfl
    · cases h

theorem systemFaults_rename {q : Path} (hp : p.NulFree) (hq : q.NulFree) :
    SystemFaults (t.rename p q) := by
  intro e h
  unfold rename at h
  cases hsource : t.find p with
  | error fault =>
    rw [hsource] at h
    cases h
    exact isSystem_of_find hp hsource
  | ok source =>
    rw [hsource] at h
    cases htarget : t.find q with
    | error fault =>
      rw [htarget] at h
      cases h
      exact isSystem_of_find hq htarget
    | ok target =>
      rw [htarget] at h
      dsimp only at h
      split at h
      · cases h
        rfl
      · split at h
        · cases h
          rfl
        · split at h
          · cases h
            rfl
          · cases h

theorem systemFaults_cleanUp (hp : p.NulFree) {e : FileError} (he : e.fault.isSystem = true) :
    SystemFaults (t.cleanUp p e).1 := by
  unfold cleanUp
  split
  · intro e' h
    cases h
    exact he
  · next hremove =>
    intro e' h
    cases h
    exact systemFaults_remove hp _ hremove

theorem systemFaults_replace {temporary : Path} (hp : p.NulFree) (htemporary : temporary.NulFree)
    (bytes : List UInt8) : SystemFaults (t.replace p temporary bytes).1 := by
  unfold replace
  split
  · next hwrite =>
    exact systemFaults_cleanUp htemporary (systemFaults_write htemporary bytes _ hwrite)
  · split
    · intro e h
      cases h
    · next hrename =>
      exact systemFaults_cleanUp htemporary (systemFaults_rename htemporary hp _ hrename)

end FileTree

end EventCodegen
