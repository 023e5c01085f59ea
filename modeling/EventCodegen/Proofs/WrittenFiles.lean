import EventCodegen.Proofs.FileTrees

/-! What writing a file below a directory makes of the tree. A file that could be written
stands at its place, the way to it is made of directories, and nothing else has changed
(`Wrote.get?`). It can then be written again (`Wrote.settled`), also after other files below the
same directory (`Settled.wrote_below`). -/
namespace EventCodegen

namespace FileTree

variable {t t₁ t' : FileTree} {p q : Path} {bytes : List UInt8}

/-! ## Writing one file -/

/-- The path of the temporary file beside a file. -/
def beside (p : Path) : Path := { p with parts := p.parent.parts ++ [p.name ++ temporaryEnding] }

theorem parts_beside_ne_nil (p : Path) : (beside p).parts ≠ [] := by
  simp [beside]

theorem parent_beside (p : Path) : (beside p).parent = p.parent := by
  simp [Path.parent, beside]

theorem name_beside (p : Path) : (beside p).name = p.name ++ temporaryEnding := by
  simp [Path.name, beside]

theorem suffix_name_beside (p : Path) : temporaryEnding.toList <:+ (beside p).name.toList := by
  rw [name_beside, String.toList_append]
  exact List.suffix_append _ _

theorem endsInName_beside (p : Path) : endsInName (beside p) = true := by
  have hname : (beside p).name ≠ ".." := by
    intro h
    have hsuffix := suffix_name_beside p
    rw [h] at hsuffix
    exact absurd hsuffix (by decide)
  simp [endsInName, parts_beside_ne_nil, hname]

theorem extended_eq (h : p.parts ≠ []) : p.extended temporaryEnding = some (beside p) := if_neg h

theorem parts_ne_nil_of_endsInName (h : endsInName p = true) : p.parts ≠ [] := by
  intro hparts
  simp [endsInName, hparts] at h

/-- The place of a path that ends in a name lies right below that of its parent. -/
theorem placeOf_eq (t : FileTree) (h : endsInName p = true) :
    t.placeOf p = p.name :: t.placeOf p.parent := by
  rw [placeOf_parent t (parts_ne_nil_of_endsInName h)]
  apply if_neg
  simp [endsInName] at h
  exact h.2

/-- Writing to a path turns one tree into another: the directories above are made, and then the file
is replaced. -/
def Wrote (t : FileTree) (p : Path) (bytes : List UInt8) (t' : FileTree) : Prop :=
  ∃ t₁, t.makeDirectories p.parent = (.ok (), t₁) ∧ t₁.replace p (beside p) bytes = (.ok (), t')

/-- A path whose file can be written without making anything else. -/
structure Settled (t : FileTree) (p : Path) : Prop where
  parent : t.stat p.parent = .ok .directory
  replaceable : Replaceable t p (beside p)

/-- Only directories may stand on the way of a file, and none where it is put or beside that. -/
theorem settled_of_way (hparent : Speakable p.parent) (hready : Replaceable t₁ p (beside p))
    (hway : ∀ q ∈ t.wayOf p.parent, t.get? q = some .directory)
    (hfree : t.get? (t.placeOf p) ≠ some .directory)
    (hfreeBeside : t.get? (t.placeOf (beside p)) ≠ some .directory) : Settled t p := by
  have hparts := parts_ne_nil_of_endsInName hready.named
  refine ⟨stat_eq_directory.mpr ⟨hparent, hway⟩, hready.named, hready.speakable, hready.beside,
    ?_, ?_, hfree, hfreeBeside⟩
  · rwa [dropLast_wayOf _ hparts]
  · rwa [dropLast_wayOf _ (parts_beside_ne_nil p), parent_beside]

theorem Settled.rewrite (h : Settled t p) (bytes : List UInt8) :
    Wrote t p bytes (t.replaced p (beside p) bytes) :=
  ⟨t, makeDirectories_of_stat h.parent, replace_eq_ok.mpr ⟨h.replaceable, rfl⟩⟩

/-- Replacing a file neither makes nor removes a directory. -/
theorem get?_replaced_directory (h : Replaceable t p (beside p)) (bytes : List UInt8) (q : Place) :
    (t.replaced p (beside p) bytes).get? q = some .directory ↔ t.get? q = some .directory := by
  rw [get?_replaced h]
  by_cases hplace : q = t.placeOf p
  · subst hplace
    simp [h.free]
  · rw [if_neg hplace]
    by_cases hbeside : q = t.placeOf (beside p)
    · subst hbeside
      simp [h.freeBeside]
    · rw [if_neg hbeside]

namespace Wrote

theorem cases (h : Wrote t p bytes t') : ∃ t₁, Opened t p.parent t₁ ∧
    Replaceable t₁ p (beside p) ∧ t' = t₁.replaced p (beside p) bytes := by
  obtain ⟨t₁, hmade, hreplace⟩ := h
  obtain ⟨hready, rfl⟩ := replace_eq_ok.mp hreplace
  exact ⟨t₁, makeDirectories_ok hmade, hready, rfl⟩

theorem named (h : Wrote t p bytes t') : endsInName p = true := by
  obtain ⟨t₁, _, hready, _⟩ := h.cases
  exact hready.named

theorem home (h : Wrote t p bytes t') : t'.home = t.home := by
  obtain ⟨t₁, hopened, _, rfl⟩ := h.cases
  exact hopened.home

/-- Only directories may stand on the way of a file. -/
theorem free (h : Wrote t p bytes t') :
    ∀ q ∈ t.stepsOf p.parent, t.get? q = none ∨ t.get? q = some .directory := by
  obtain ⟨t₁, hopened, _, _⟩ := h.cases
  exact hopened.free

theorem directory_iff (h : Wrote t p bytes t') (q : Place) : t'.get? q = some .directory ↔
    q ∈ t.stepsOf p.parent ∨ t.get? q = some .directory := by
  obtain ⟨t₁, hopened, hready, rfl⟩ := h.cases
  rw [get?_replaced_directory hready, hopened.get?]
  by_cases hq : q ∈ t.stepsOf p.parent
  · simp [hq]
  · simp [hq]

/-- Where no file stood beside it, a file that was written stands at its place, the way to it is
made of directories, and nothing else has changed. -/
theorem get? (h : Wrote t p bytes t')
    (hbeside : ∀ other, t.get? (t.placeOf (beside p)) ≠ some (.file other)) (q : Place) :
    t'.get? q =
      if q = t.placeOf p then some (.file bytes)
      else if q ∈ t.stepsOf p.parent then some .directory else t.get? q := by
  obtain ⟨t₁, hopened, hready, rfl⟩ := h.cases
  rw [get?_replaced hready, placeOf_congr hopened.home, placeOf_congr hopened.home, hopened.get?]
  split
  · rfl
  · split
    · next hq =>
      -- nothing stands beside the file in the end, and nothing stood there before
      have hfree := hready.freeBeside
      rw [placeOf_congr hopened.home, ← hq, hopened.get?] at hfree
      rw [← hq] at hbeside
      split
      · next hmem =>
        rw [if_pos hmem] at hfree
        exact absurd rfl hfree
      · next hmem =>
        rw [if_neg hmem] at hfree
        rcases hentry : t.get? q with _ | (other | _)
        · rfl
        · exact absurd hentry (hbeside other)
        · exact absurd hentry hfree
    · rfl

/-- A file that was written can be written again. -/
theorem settled (h : Wrote t p bytes t') : Settled t' p := by
  have hhome := h.home
  obtain ⟨t₁, hopened, hready, rfl⟩ := h.cases
  refine settled_of_way hopened.speakable hready (fun q hq => ?_) ?_ ?_
  · rw [wayOf_congr hhome] at hq
    exact (get?_replaced_directory hready bytes q).mpr (hopened.directory q hq)
  · rw [Ne, get?_replaced_directory hready, placeOf_congr (hhome.trans hopened.home.symm)]
    exact hready.free
  · rw [Ne, get?_replaced_directory hready, placeOf_congr (hhome.trans hopened.home.symm)]
    exact hready.freeBeside

end Wrote

/-- A file can still be written after another one if the way of that one does not lead through its
place or the place beside it. -/
theorem Settled.wrote (hp : Settled t p) (h : Wrote t q bytes t')
    (hplace : t.placeOf p ∉ t.stepsOf q.parent)
    (hbeside : t.placeOf (beside p) ∉ t.stepsOf q.parent) : Settled t' p := by
  have hready := hp.replaceable
  obtain ⟨hspeakable, hway⟩ := stat_eq_directory.mp hp.parent
  refine settled_of_way hspeakable hready (fun place hmem => ?_) ?_ ?_
  · rw [wayOf_congr h.home] at hmem
    exact (h.directory_iff place).mpr (Or.inr (hway place hmem))
  · rw [Ne, h.directory_iff, placeOf_congr h.home, not_or]
    exact ⟨hplace, hready.free⟩
  · rw [Ne, h.directory_iff, placeOf_congr h.home, not_or]
    exact ⟨hbeside, hready.freeBeside⟩

/-! ## Files below a destination -/

section
variable {d path other : Path}

theorem origin_join (t : FileTree) (d : Path) (hpath : path.start = .here) :
    t.origin (d.join path) = t.origin d := by
  unfold Path.join
  rw [hpath]
  rfl

theorem parts_join (d : Path) (hpath : path.start = .here) :
    (d.join path).parts = d.parts ++ path.parts := by
  unfold Path.join
  rw [hpath]

theorem parent_join (d : Path) (hpath : path.start = .here) (hparts : path.parts ≠ []) :
    (d.join path).parent = d.join path.parent := by
  unfold Path.join Path.parent
  rw [hpath]
  simp [List.dropLast_append_of_ne_nil hparts]

/-- A path that stays below a directory leads below the place of that directory. -/
theorem placeOf_join (t : FileTree) (d : Path) (hpath : path.isBelow = true) :
    t.placeOf (d.join path) = path.parts.reverse ++ t.placeOf d := by
  obtain ⟨hstart, hup⟩ := Path.isBelow_iff.mp hpath
  rw [placeOf, origin_join t d hstart, parts_join d hstart, along, List.foldl_append]
  refine along_down _ fun n hn => ?_
  rintro rfl
  exact hup hn

/-- The way to a file below a destination leads to the destination and then through the directories
of the file. -/
theorem stepsOf_parent_join (t : FileTree) (d : Path) (hpath : Path.Filed path) :
    t.stepsOf (d.join path).parent = t.stepsOf d ++ steps (t.placeOf d) path.parent.parts := by
  have hstart : path.parent.start = .here := hpath.start
  rw [parent_join d hpath.start hpath.named, stepsOf_eq, origin_join t d hstart,
    parts_join d hstart, steps_append]
  rfl

theorem endsInName_join (d : Path) (hpath : Path.Filed path) :
    endsInName (d.join path) = true ∧ (d.join path).name = path.name := by
  have hparts := parts_join d hpath.start
  rw [← Path.parts_eq hpath.named, ← List.append_assoc] at hparts
  have hname : (d.join path).name = path.name := by
    rw [Path.name, hparts]
    simp
  refine ⟨?_, hname⟩
  have hdots := hpath.ne_dots _ hpath.name_mem
  simp [endsInName, hname, hdots, hparts]

/-- On the way to a file a name with a dot in it stands no lower than the destination. -/
theorem mem_stepsOf_of_dotted (hpath : Path.Filed path) {name : String} (hname : '.' ∈ name.toList)
    {above : Place} (h : name :: above ∈ t.stepsOf (d.join path).parent) :
    name :: above ∈ t.stepsOf d := by
  rw [stepsOf_parent_join t d hpath] at h
  rcases List.mem_append.mp h with h | h
  · exact h
  · have hup : ∀ n ∈ path.parent.parts, n ≠ ".." := fun n hn =>
      hpath.ne_dots n (List.dropLast_subset _ hn)
    exact absurd hname (hpath.directories name (head_mem_of_mem_steps hup h))

/-- Files below one destination do not stand in each other's way. -/
theorem Settled.wrote_below (hpath : Path.Filed path) (hother : Path.Filed other)
    (h : Settled t (d.join path)) (hwrote : Wrote t (d.join other) bytes t') :
    Settled t' (d.join path) := by
  have hway := (stat_eq_directory.mp h.parent).2
  have hready := h.replaceable
  obtain ⟨hends, hname⟩ := endsInName_join d hpath
  have hdestination : ∀ q ∈ t.stepsOf d, t.get? q = some .directory := by
    intro q hq
    apply hway
    rw [wayOf, stepsOf_parent_join t d hpath]
    exact List.mem_cons_of_mem _ (List.mem_append_left _ hq)
  refine h.wrote hwrote (fun hmem => ?_) fun hmem => ?_
  · apply hready.free
    apply hdestination
    rw [placeOf_eq t hends] at hmem ⊢
    exact mem_stepsOf_of_dotted hother (by rw [hname]; exact hpath.dotted) hmem
  · apply hready.freeBeside
    apply hdestination
    rw [placeOf_eq t (endsInName_beside _)] at hmem ⊢
    refine mem_stepsOf_of_dotted hother ?_ hmem
    exact (suffix_name_beside _).subset (by decide)

/-- No file stands under the name of a temporary one. -/
def NoTemporaryFile (t : FileTree) : Prop :=
  ∀ name above bytes, temporaryEnding.toList <:+ name.toList →
    t.get? (name :: above) ≠ some (.file bytes)

theorem NoTemporaryFile.beside (h : NoTemporaryFile t) (p : Path) (bytes : List UInt8) :
    t.get? (t.placeOf (beside p)) ≠ some (.file bytes) := by
  rw [placeOf_eq t (endsInName_beside p)]
  exact h _ _ _ (suffix_name_beside p)

theorem NoTemporaryFile.wrote (h : NoTemporaryFile t) (hpath : Path.Filed path)
    (hwrote : Wrote t (d.join path) bytes t') : NoTemporaryFile t' := by
  intro name above other hname
  rw [hwrote.get? (h.beside _)]
  split
  · next hplace =>
    obtain ⟨hends, hjoined⟩ := endsInName_join d hpath
    rw [placeOf_eq t hends, hjoined] at hplace
    rw [(List.cons.inj hplace).1] at hname
    exact absurd hname hpath.kept
  · split
    · nofun
    · exact h name above other hname

end

end FileTree
end EventCodegen
