import EventCodegen.Generation.Output
import EventCodegen.Proofs.Effects
import EventCodegen.Proofs.WrittenFiles

/-! What writing a file leaves of the tree when it fails, and when it does not. Making directories
only ever adds directories, also where it stops halfway (`makeDirectories_grown`). A file is
replaced by way of one beside it, and wherever the writing stops, the clean-up finds what was
written so far and takes it away (`cleanUp_of_written`). So a write that fails harms no file but
perhaps a temporary one and leaves nothing new but directories, and one that goes through changes
its own file besides that (`write_harms_no_file`). -/
namespace EventCodegen

namespace FileTree

variable {t t₁ t' written : FileTree} {p temporary : Path} {bytes : List UInt8}

/-! ## What a write may do -/

/-- What may be found at a place later: what stood there before, or a directory where nothing
stood. -/
def MayShow (t : FileTree) (q : Place) (e : Entry) : Prop :=
  t.get? q = some e ∨ t.get? q = none ∧ e = .directory

/-- All that stood in a tree still stands, and what is new are directories. -/
structure Grown (t t' : FileTree) : Prop where
  home : t'.home = t.home
  kept : ∀ q e, t.get? q = some e → t'.get? q = some e
  added : ∀ q e, t'.get? q = some e → t.MayShow q e

/-- All that stood in a tree still stands unless it was a file at the temporary place, and what is
new are directories. -/
structure Spared (t : FileTree) (temporary : Place) (t' : FileTree) : Prop where
  kept : ∀ q e, t.get? q = some e → t'.get? q = some e ∨ q = temporary ∧ e ≠ .directory
  added : ∀ q e, t'.get? q = some e → t.MayShow q e

/-- A file has its content, and everywhere else the tree is spared. -/
structure Delivered (t : FileTree) (target temporary : Place) (bytes : List UInt8)
    (t' : FileTree) : Prop where
  content : t'.get? target = some (.file bytes)
  kept : ∀ q e, q ≠ target → t.get? q = some e →
    t'.get? q = some e ∨ q = temporary ∧ e ≠ .directory
  added : ∀ q e, q ≠ target → t'.get? q = some e → t.MayShow q e

namespace Grown

theorem refl (t : FileTree) : Grown t t := ⟨rfl, fun _ _ h => h, fun _ _ h => Or.inl h⟩

/-- Where nothing stands now, nothing stood before. -/
theorem mayShow (h : Grown t t₁) {q : Place} {e : Entry} (he : t₁.MayShow q e) : t.MayShow q e := by
  rcases he with hsome | ⟨hnone, rfl⟩
  · exact h.added q e hsome
  · refine Or.inr ⟨Option.eq_none_iff_forall_ne_some.mpr fun e he => ?_, rfl⟩
    rw [h.kept q e he] at hnone
    cases hnone

theorem trans (h : Grown t t₁) (h' : Grown t₁ t') : Grown t t' where
  home := h'.home.trans h.home
  kept q e hq := h'.kept q e (h.kept q e hq)
  added q e hq := h.mayShow (h'.added q e hq)

/-- What is spared once directories have been made is spared altogether. -/
theorem spared {place : Place} (h : Grown t t₁) (h' : Spared t₁ place t') : Spared t place t' where
  kept q e hq := h'.kept q e (h.kept q e hq)
  added q e hq := h.mayShow (h'.added q e hq)

theorem delivered {target place : Place} (h : Grown t t₁)
    (h' : Delivered t₁ target place bytes t') : Delivered t target place bytes t' where
  content := h'.content
  kept q e hne hq := h'.kept q e hne (h.kept q e hq)
  added q e hne hq := h.mayShow (h'.added q e hne hq)

theorem of_opened (h : Opened t p t') : Grown t t' where
  home := h.home
  kept q e hq := by
    rw [h.get?]
    split
    · next hmem =>
      rcases h.free q hmem with hnone | hdirectory
      · rw [hnone] at hq
        cases hq
      · rw [← hdirectory, hq]
    · exact hq
  added q e hq := by
    rw [h.get?] at hq
    split at hq
    · next hmem =>
      cases hq
      exact (h.free q hmem).symm.imp_right fun hnone => ⟨hnone, rfl⟩
    · exact Or.inl hq

end Grown

theorem Spared.refl (t : FileTree) (place : Place) : Spared t place t :=
  ⟨fun _ _ h => Or.inl h, fun _ _ h => Or.inl h⟩

/-! ## Each step of a write -/

/-- However far the making of directories gets, only directories are added. -/
theorem makeDirectories_grown : ∀ {t t' : FileTree} {p : Path} {outcome : Except FileError Unit},
    t.makeDirectories p = (outcome, t') → Grown t t' := by
  intro t t' p outcome
  -- the recursion goes from a path to its parent
  induction hlength : p.parts.length using Nat.strongRecOn generalizing p t' outcome with
  | _ n ih =>
    subst hlength
    intro h
    unfold makeDirectories at h
    cases hmade : t.makeDirectory p with
    | ok made =>
      rw [hmade] at h
      cases h
      exact .of_opened (.of_made hmade)
    | error e =>
      rw [hmade] at h
      dsimp only at h
      split at h
      · next hmissing =>
        have hpos := List.length_pos_iff.mpr hmissing.2
        have hless : p.parent.parts.length < p.parts.length := by
          rw [Path.parent, List.length_dropLast]
          omega
        rcases hparent : t.makeDirectories p.parent with ⟨e' | _, t₁⟩
        · rw [hparent] at h
          cases h
          exact ih _ hless rfl hparent
        · rw [hparent] at h
          have hgrown := ih _ hless rfl hparent
          dsimp only at h
          cases hagain : t₁.makeDirectory p with
          | ok made =>
            rw [hagain] at h
            cases h
            exact hgrown.trans (.of_opened (.of_made hagain))
          | error e' =>
            rw [hagain] at h
            cases h
            exact hgrown
      · cases h
        exact .refl t

/-- Nothing is there to be taken away if the temporary file could not be written. -/
theorem cleanUp_of_unwritten {e : FileError} (h : t.write temporary bytes = .error e)
    (e' : FileError) : (t.cleanUp temporary e').2 = t := by
  unfold cleanUp remove
  unfold write at h
  cases hfind : t.find temporary with
  | error fault => cases fault <;> rfl
  | ok place =>
    rw [hfind] at h
    dsimp only at h ⊢
    rcases hplace : t.get? place with _ | (other | _)
    · simp [hplace] at h
    · simp [hplace] at h
    · rfl

/-- Whatever part of a file has been written, it is found again and taken away. -/
theorem cleanUp_of_written (h : t.write temporary bytes = .ok written) (e : FileError) :
    written.cleanUp temporary e = (.error e, written.erase (t.placeOf temporary)) := by
  obtain ⟨hfind, hfree, rfl⟩ := write_eq_ok.mp h
  have hagain := (find_put_file hfree bytes temporary).mpr hfind
  have hthere : (t.put (t.placeOf temporary) (.file bytes)).get? (t.placeOf temporary) =
      some (.file bytes) := by
    rw [get?_put t (ne_root_of_get? hfree), if_pos rfl]
  simp only [cleanUp, remove, hagain, hthere]

theorem spared_of_written (h : t.write temporary bytes = .ok written) :
    Spared t (t.placeOf temporary) (written.erase (t.placeOf temporary)) := by
  obtain ⟨_, hfree, rfl⟩ := write_eq_ok.mp h
  have hroot := ne_root_of_get? hfree
  have hget (q : Place) : ((t.put (t.placeOf temporary) (.file bytes)).erase
      (t.placeOf temporary)).get? q = if q = t.placeOf temporary then none else t.get? q := by
    rw [get?_erase _ hroot, get?_put t hroot]
    split
    · rfl
    · rfl
  refine ⟨fun q e hq => ?_, fun q e hq => ?_⟩
  · rw [hget]
    by_cases hplace : q = t.placeOf temporary
    · refine Or.inr ⟨hplace, ?_⟩
      rintro rfl
      rw [hplace] at hq
      exact hfree hq
    · rw [if_neg hplace]
      exact Or.inl hq
  · rw [hget] at hq
    split at hq
    · cases hq
    · exact Or.inl hq

/-- A replacement that fails once `bytes` stand in the temporary file, for whatever reason. -/
def interrupted (t : FileTree) (temporary : Path) (bytes : List UInt8) (e : FileError) :
    Except FileError Unit × FileTree :=
  match t.write temporary bytes with
  | .error e => t.cleanUp temporary e
  | .ok written => written.cleanUp temporary e

theorem spared_of_interrupted (t : FileTree) (temporary : Path) (bytes : List UInt8)
    (e : FileError) : Spared t (t.placeOf temporary) (t.interrupted temporary bytes e).2 := by
  unfold interrupted
  cases hwrite : t.write temporary bytes with
  | error e' =>
    dsimp only
    rw [cleanUp_of_unwritten hwrite]
    exact .refl t _
  | ok written =>
    dsimp only
    rw [cleanUp_of_written hwrite]
    exact spared_of_written hwrite

/-- A replacement that fails was interrupted somewhere. -/
theorem replace_eq_error {e : FileError} (h : t.replace p temporary bytes = (.error e, t')) :
    ∃ e', t.interrupted temporary bytes e' = (.error e, t') := by
  unfold replace at h
  unfold interrupted
  cases hwrite : t.write temporary bytes with
  | error e' =>
    rw [hwrite] at h
    exact ⟨e', h⟩
  | ok written =>
    rw [hwrite] at h
    dsimp only at h
    split at h
    · cases h
    · exact ⟨_, h⟩

/-- A replacement that goes through delivers the file. -/
theorem delivered_of_replace (h : t.replace p temporary bytes = (.ok (), t')) :
    Delivered t (t.placeOf p) (t.placeOf temporary) bytes t' := by
  obtain ⟨hready, rfl⟩ := replace_eq_ok.mp h
  have hget := get?_replaced hready bytes
  refine ⟨?_, fun q e hne hq => ?_, fun q e hne hq => ?_⟩
  · rw [hget, if_pos rfl]
  · rw [hget, if_neg hne]
    by_cases hplace : q = t.placeOf temporary
    · refine Or.inr ⟨hplace, ?_⟩
      rintro rfl
      rw [hplace] at hq
      exact hready.freeBeside hq
    · rw [if_neg hplace]
      exact Or.inl hq
  · rw [hget, if_neg hne] at hq
    split at hq
    · cases hq
    · exact Or.inl hq

/-! ## Writes below new directories -/

theorem grown_of_makeDirectories (t : FileTree) (p : Path) : Grown t (t.makeDirectories p).2 :=
  makeDirectories_grown (p := p) rfl

theorem placeOf_makeDirectories (t : FileTree) (p q : Path) :
    (t.makeDirectories p).2.placeOf q = t.placeOf q :=
  placeOf_congr (t.grown_of_makeDirectories p).home q

theorem spared_below (t : FileTree) (parent temporary : Path) (bytes : List UInt8)
    (e : FileError) : Spared t (t.placeOf temporary)
      ((t.makeDirectories parent).2.interrupted temporary bytes e).2 := by
  have hspared := spared_of_interrupted (t.makeDirectories parent).2 temporary bytes e
  rw [placeOf_makeDirectories] at hspared
  exact (t.grown_of_makeDirectories parent).spared hspared

theorem delivered_below {parent : Path}
    (h : (t.makeDirectories parent).2.replace p temporary bytes = (.ok (), t')) :
    Delivered t (t.placeOf p) (t.placeOf temporary) bytes t' := by
  have hdelivered := delivered_of_replace h
  rw [placeOf_makeDirectories, placeOf_makeDirectories] at hdelivered
  exact (t.grown_of_makeDirectories parent).delivered hdelivered

end FileTree

namespace Output

open FileTree

/-! ## Whole writes -/

/-- Whatever the tree, the directory and the file are, a write that fails leaves every file as it
was, except that a file at the temporary name may be gone, and adds nothing but directories. That is
so too if it is interrupted after any part of the content. A write that goes through gives the file
its content, in bytes, and leaves all else as it was in the same way. -/
theorem write_harms_no_file (d : Path) (f : GeneratedFile) (w : World) :
    let path := d.join f.path
    let place := w.files.placeOf path
    let temporary := w.files.placeOf (beside path)
    (match ((directory d).write f).apply w with
    | (.ok _, w') => Delivered w.files place temporary (Text.encode f.content.toList) w'.files
    | (.error _, w') => Spared w.files temporary w'.files) ∧
    ∀ bytes e, Spared w.files temporary
      (((w.files.makeDirectories path.parent).2.interrupted (beside path) bytes e).2) := by
  intro path place temporary
  refine ⟨?_, fun bytes e => w.files.spared_below path.parent (beside path) bytes e⟩
  unfold write writeBelow
  dsimp only
  rw [Run.apply_bind, Run.apply_onFiles]
  rcases hmade : w.files.makeDirectories path.parent with ⟨made, t⟩
  have hfiles : (w.files.makeDirectories path.parent).2 = t := by rw [hmade]
  have hdirectories : Spared w.files temporary t :=
    hfiles ▸ (w.files.grown_of_makeDirectories path.parent).spared (.refl _ _)
  cases made with
  | error e => exact hdirectories
  | ok =>
    dsimp only [Except.mapError]
    by_cases hparts : path.parts = []
    · have hnone : path.extended temporaryEnding = none := if_pos hparts
      rw [hnone]
      exact hdirectories
    rw [extended_eq hparts]
    dsimp only
    rw [Run.apply_bind, Run.apply_onFiles]
    rcases hreplace : t.replace path (beside path) (Text.encode f.content.toList) with ⟨e | _, t'⟩
    · obtain ⟨e', hstopped⟩ := replace_eq_error hreplace
      have hspared := w.files.spared_below path.parent (beside path)
        (Text.encode f.content.toList) e'
      rw [hfiles, hstopped] at hspared
      exact hspared
    · rw [← hfiles] at hreplace
      exact delivered_below hreplace

end Output
end EventCodegen
