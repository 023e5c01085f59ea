import EventCodegen.Files.Survey
import EventCodegen.Proofs.FilePaths
import EventCodegen.Proofs.Tables

/-! What the operations on a tree of files need and what they do. A path has one place, whatever
stands on the way there (`placeOf`), and it is found if every place before that is a directory
(`find_eq_ok`). Making directories adds those that were missing on the way and nothing else
(`makeDirectories_ok`), and replacing a file takes the file beside it away and puts the content at
its place (`replace_eq_ok`). -/
namespace EventCodegen.FileTree

variable {t t₁ t₂ : FileTree} {p : Path}

/-! ## Entries -/

@[simp] theorem get?_root (t : FileTree) : t.get? [] = some .directory := if_pos rfl

theorem get?_of_ne {q : Place} (h : q ≠ []) (t : FileTree) : t.get? q = t.entries.lookup q :=
  if_neg h

theorem get?_erase (t : FileTree) {p : Place} (hp : p ≠ []) (q : Place) :
    (t.erase p).get? q = if q = p then none else t.get? q := by
  by_cases hq : q = p
  · subst hq
    rw [get?_of_ne hp, if_pos rfl]
    exact lookup_filter_self q t.entries
  · rw [if_neg hq]
    by_cases hroot : q = []
    · rw [hroot, get?_root, get?_root]
    · rw [get?_of_ne hroot, get?_of_ne hroot]
      exact lookup_filter_ne hq t.entries

theorem get?_put (t : FileTree) {p : Place} (hp : p ≠ []) (e : Entry) (q : Place) :
    (t.put p e).get? q = if q = p then some e else t.get? q := by
  by_cases hroot : q = []
  · subst hroot
    rw [if_neg (Ne.symm hp), get?_root, get?_root]
  · by_cases hq : q = p
    · subst hq
      rw [if_pos rfl, get?_of_ne hroot]
      exact List.lookup_cons_self
    · have herase := t.get?_erase hp q
      rw [if_neg hq, get?_of_ne hroot] at herase
      rw [if_neg hq, get?_of_ne hroot, ← herase]
      show List.lookup q ((p, e) :: (t.erase p).entries) = _
      rw [List.lookup_cons, beq_false_of_ne hq]

/-- Something other than a directory does not stand at the root. -/
theorem ne_root_of_get? {q : Place} (h : t.get? q ≠ some .directory) : q ≠ [] := by
  rintro rfl
  exact h t.get?_root

/-! ## Places -/

/-- The place that a name leads to. -/
def next (here : Place) (name : String) : Place := if name = ".." then here.tail else name :: here

/-- The place that names lead to, as if all places on the way were directories. -/
def along (here : Place) (names : List String) : Place := names.foldl next here

/-- The place that a path starts from. -/
def origin (t : FileTree) (p : Path) : Place := if p.start = .here then t.home else []

/-- The place of a path, whatever stands on the way there. -/
def placeOf (t : FileTree) (p : Path) : Place := along (t.origin p) p.parts

/-- The place that a path starts from and those that it leads through. -/
def wayOf (t : FileTree) (p : Path) : List Place := t.origin p :: t.stepsOf p

theorem steps_cons (here : Place) (name : String) (rest : List String) :
    steps here (name :: rest) = next here name :: steps (next here name) rest := rfl

theorem steps_append (here : Place) (names more : List String) :
    steps here (names ++ more) = steps here names ++ steps (along here names) more := by
  induction names generalizing here with
  | nil => rfl
  | cons name rest ih =>
    rw [List.cons_append, steps_cons, steps_cons, ih, List.cons_append]
    rfl

/-- Names that do not lead upwards are put on top of the place they start from. -/
theorem along_down (here : Place) {names : List String} (h : ∀ n ∈ names, n ≠ "..") :
    along here names = names.reverse ++ here := by
  induction names generalizing here with
  | nil => rfl
  | cons name rest ih =>
    have hnext : next here name = name :: here := if_neg (h name List.mem_cons_self)
    show along (next here name) rest = _
    rw [ih _ fun n hn => h n (List.mem_cons_of_mem _ hn), hnext, List.reverse_cons,
      List.append_assoc, List.singleton_append]

/-- A place above which there is a name was led through under that name, or lies where the way
began. -/
theorem head_mem_of_mem_steps {here : Place} {names : List String} (h : ∀ n ∈ names, n ≠ "..")
    {name : String} {above : Place} (hmem : name :: above ∈ steps here names) : name ∈ names := by
  induction names generalizing here with
  | nil => cases hmem
  | cons first rest ih =>
    have hnext : next here first = first :: here := if_neg (h first List.mem_cons_self)
    rw [steps_cons, hnext] at hmem
    rcases List.mem_cons.mp hmem with heq | hmem
    · rw [(List.cons.inj heq).1]
      exact List.mem_cons_self
    · exact List.mem_cons_of_mem _ (ih (fun n hn => h n (List.mem_cons_of_mem _ hn)) hmem)

section
variable (hhome : t₂.home = t₁.home)
include hhome

theorem origin_congr (p : Path) : t₂.origin p = t₁.origin p := by
  rw [origin, origin, hhome]

theorem placeOf_congr (p : Path) : t₂.placeOf p = t₁.placeOf p := by
  rw [placeOf, placeOf, origin_congr hhome]

theorem stepsOf_congr (p : Path) : t₂.stepsOf p = t₁.stepsOf p := by
  rw [stepsOf, stepsOf, hhome]

theorem wayOf_congr (p : Path) : t₂.wayOf p = t₁.wayOf p := by
  rw [wayOf, wayOf, origin_congr hhome, stepsOf_congr hhome]

end

theorem stepsOf_eq (t : FileTree) (p : Path) : t.stepsOf p = steps (t.origin p) p.parts := rfl

theorem placeOf_parent (t : FileTree) (h : p.parts ≠ []) :
    t.placeOf p = next (t.placeOf p.parent) p.name := by
  rw [placeOf, ← Path.parts_eq h, along, List.foldl_concat]
  rfl

/-- The way of a path is the way of its parent with one place more. -/
theorem stepsOf_parent (t : FileTree) (h : p.parts ≠ []) :
    t.stepsOf p = t.stepsOf p.parent ++ [t.placeOf p] := by
  rw [placeOf_parent t h, stepsOf_eq, ← Path.parts_eq h, steps_append]
  rfl

theorem dropLast_wayOf (t : FileTree) (h : p.parts ≠ []) :
    (t.wayOf p).dropLast = t.wayOf p.parent := by
  rw [wayOf, stepsOf_parent t h, ← List.cons_append, List.dropLast_concat]
  rfl

/-- The way of a path ends at its place. -/
theorem wayOf_eq (t : FileTree) (p : Path) : t.wayOf p = (t.wayOf p).dropLast ++ [t.placeOf p] := by
  by_cases h : p.parts = []
  · rw [wayOf, stepsOf_eq, placeOf, h]
    rfl
  · rw [dropLast_wayOf t h, wayOf, stepsOf_parent t h]
    rfl

theorem placeOf_mem_wayOf (t : FileTree) (p : Path) : t.placeOf p ∈ t.wayOf p := by
  rw [wayOf_eq]
  exact List.mem_append_right _ (List.mem_singleton_self _)

/-! ## Paths that can be followed -/

/-- A name that the system accepts. -/
def Fits (name : String) : Prop := name = ".." ∨ byteLength name ≤ maxName

/-- A path that the system can be asked about. -/
structure Speakable (p : Path) : Prop where
  no_nul : p.text.toList.any (· == Char.ofNat 0) = false
  short : byteLength p.text ≤ maxPath
  fits : ∀ name ∈ p.parts, Fits name

theorem walk_eq_ok {names : List String} {here place : Place} :
    t.walk here names = .ok place ↔ (∀ name ∈ names, Fits name) ∧
      (∀ q ∈ (here :: steps here names).dropLast, t.get? q = some .directory) ∧
      place = along here names := by
  induction names generalizing here with
  | nil =>
    show Except.ok here = Except.ok place ↔ _
    simp [along, steps, eq_comm]
  | cons name rest ih =>
    rw [steps_cons, List.dropLast_cons_cons, List.forall_mem_cons, List.forall_mem_cons]
    show _ ↔ _ ∧ _ ∧ place = along (next here name) rest
    unfold walk
    rcases hhere : t.get? here with _ | (bytes | _)
    · simp
    · simp
    -- only a directory can be left, and only by a name that fits
    · dsimp only
      by_cases hup : name = ".."
      · have hfits : Fits name := Or.inl hup
        have hnext : next here name = here.tail := if_pos hup
        rw [if_pos hup, hnext, ih]
        simp [hfits]
      · have hnext : next here name = name :: here := if_neg hup
        rw [if_neg hup, hnext]
        by_cases hlong : byteLength name > maxName
        · have hfits : ¬Fits name := by
            rintro (h | h)
            · exact hup h
            · omega
          rw [if_pos hlong]
          simp [hfits]
        · have hfits : Fits name := Or.inr (by omega)
          rw [if_neg hlong, ih]
          simp [hfits]

theorem find_eq_ok {place : Place} :
    t.find p = .ok place ↔ Speakable p ∧
      (∀ q ∈ (t.wayOf p).dropLast, t.get? q = some .directory) ∧ place = t.placeOf p := by
  unfold find
  constructor
  · intro h
    split at h
    · cases h
    · next hnul =>
      split at h
      · cases h
      · next hlong =>
        obtain ⟨hfits, hway, hplace⟩ := walk_eq_ok.mp h
        exact ⟨⟨Bool.eq_false_iff.mpr hnul, by omega, hfits⟩, hway, hplace⟩
  · rintro ⟨hp, hway, hplace⟩
    have hshort := hp.short
    rw [if_neg (Bool.eq_false_iff.mp hp.no_nul), if_neg (by omega)]
    exact walk_eq_ok.mpr ⟨hp.fits, hway, hplace⟩

/-- A directory stands at a path if the whole way to it consists of directories. -/
theorem stat_eq_directory :
    t.stat p = .ok .directory ↔ Speakable p ∧ ∀ q ∈ t.wayOf p, t.get? q = some .directory := by
  have hstat : t.stat p = .ok .directory ↔
      ∃ place, t.find p = .ok place ∧ t.get? place = some .directory := by
    unfold stat
    cases t.find p with
    | error fault =>
      constructor
      · intro h
        cases h
      · rintro ⟨place, h, _⟩
        cases h
    | ok place =>
      simp only [bind, Except.bind, pure, Except.pure]
      rcases hplace : t.get? place with _ | e
      · simp [hplace]
      · simp [hplace]
  have hway : (∀ q ∈ t.wayOf p, t.get? q = some .directory) ↔
      (∀ q ∈ (t.wayOf p).dropLast, t.get? q = some .directory) ∧
        t.get? (t.placeOf p) = some .directory := by
    conv_lhs => rw [wayOf_eq]
    rw [List.forall_mem_append, List.forall_mem_singleton]
  rw [hstat, hway]
  constructor
  · rintro ⟨place, hfind, hplace⟩
    obtain ⟨hp, hway, rfl⟩ := find_eq_ok.mp hfind
    exact ⟨hp, hway, hplace⟩
  · rintro ⟨hp, hway, hplace⟩
    exact ⟨_, find_eq_ok.mpr ⟨hp, hway, rfl⟩, hplace⟩

/-! ## Making directories -/

/-- One tree comes from another by opening the way of a path: what was missing there is a directory
now, and nothing else has changed. -/
structure Opened (t : FileTree) (p : Path) (t' : FileTree) : Prop where
  speakable : Speakable p
  home : t'.home = t.home
  origin : t.get? (t.origin p) = some .directory
  free : ∀ q ∈ t.stepsOf p, t.get? q = none ∨ t.get? q = some .directory
  get? : ∀ q, t'.get? q = if q ∈ t.stepsOf p then some .directory else t.get? q

namespace Opened

theorem of_stat (h : t.stat p = .ok .directory) : Opened t p t := by
  obtain ⟨hp, hway⟩ := stat_eq_directory.mp h
  refine ⟨hp, rfl, hway _ List.mem_cons_self,
    fun q hq => Or.inr (hway q (List.mem_cons_of_mem _ hq)), fun q => ?_⟩
  split
  · next hq => exact hway q (List.mem_cons_of_mem _ hq)
  · rfl

theorem of_made (h : t.makeDirectory p = .ok t₁) : Opened t p t₁ := by
  unfold makeDirectory at h
  cases hfind : t.find p with
  | error fault =>
    rw [hfind] at h
    cases h
  | ok place =>
    rw [hfind] at h
    dsimp only at h
    split at h
    · cases h
    · next hfree =>
      obtain ⟨hp, hway, rfl⟩ := find_eq_ok.mp hfind
      rw [not_or, Option.not_isSome_iff_eq_none] at hfree
      obtain ⟨hname, hnone⟩ := hfree
      have hparts : p.parts ≠ [] := by
        intro hparts
        simp [endsInName, hparts] at hname
      have hroot : t.placeOf p ≠ [] := ne_root_of_get? (by rw [hnone]; nofun)
      rw [dropLast_wayOf t hparts] at hway
      cases h
      refine ⟨hp, rfl, hway _ List.mem_cons_self, fun q hq => ?_, fun q => ?_⟩
      · rw [stepsOf_parent t hparts] at hq
        rcases List.mem_append.mp hq with hq | hq
        · exact Or.inr (hway q (List.mem_cons_of_mem _ hq))
        · exact Or.inl (by rw [List.mem_singleton.mp hq, hnone])
      · rw [get?_put t hroot, stepsOf_parent t hparts]
        by_cases hlast : q = t.placeOf p
        · simp [hlast]
        · by_cases hq : q ∈ t.stepsOf p.parent
          · simp [hlast, hq, hway q (List.mem_cons_of_mem _ hq)]
          · simp [hlast, hq]

/-- First the way of the parent is opened, then that of the path itself. -/
theorem trans (hparent : Opened t p.parent t₁) (h : Opened t₁ p t₂) : Opened t p t₂ := by
  have hsteps := stepsOf_congr hparent.home p
  have hsub : ∀ q, q ∈ t.stepsOf p.parent → q ∈ t.stepsOf p := by
    intro q hq
    by_cases hparts : p.parts = []
    · have hself : p.parent = p := by
        rw [Path.parent, hparts, List.dropLast_nil, ← hparts]
      rwa [hself] at hq
    · rw [stepsOf_parent t hparts]
      exact List.mem_append_left _ hq
  refine ⟨h.speakable, h.home.trans hparent.home, hparent.origin, fun q hq => ?_, fun q => ?_⟩
  · by_cases hmem : q ∈ t.stepsOf p.parent
    · exact hparent.free q hmem
    · have hbefore := hparent.get? q
      rw [if_neg hmem] at hbefore
      rw [← hbefore]
      exact h.free q (by rwa [hsteps])
  · rw [h.get?, hparent.get?, hsteps]
    by_cases hq : q ∈ t.stepsOf p
    · rw [if_pos hq, if_pos hq]
    · rw [if_neg hq, if_neg hq, if_neg fun hmem => hq (hsub q hmem)]

/-- The way of a path that has been opened consists of directories. -/
theorem directory (h : Opened t p t₁) : ∀ q ∈ t.wayOf p, t₁.get? q = some .directory := by
  intro q hq
  rw [h.get?]
  rcases List.mem_cons.mp hq with rfl | hq
  · split
    · rfl
    · exact h.origin
  · exact if_pos hq

end Opened

/-- A failure to make a directory is overlooked only where a directory stands. -/
theorem settle_ok {e : FileError} (h : makeDirectories.settle p t e = .ok ()) :
    t.stat p = .ok .directory := by
  unfold makeDirectories.settle hasDirectory at h
  split at h
  · cases hstat : t.stat p with
    | ok entry =>
      cases entry with
      | directory => rfl
      | file bytes => simp [hstat] at h
    | error fault => cases fault <;> simp [hstat] at h
  · cases h

/-- Directories that could be made lie open now, and nothing else has changed. -/
theorem makeDirectories_ok : ∀ {t t' : FileTree} {p : Path},
    t.makeDirectories p = (.ok (), t') → Opened t p t' := by
  intro t t' p
  -- the recursion goes from a path to its parent
  induction hlength : p.parts.length using Nat.strongRecOn generalizing p t' with
  | _ n ih =>
    subst hlength
    intro h
    unfold makeDirectories at h
    cases hmade : t.makeDirectory p with
    | ok made =>
      rw [hmade] at h
      cases h
      exact .of_made hmade
    | error e =>
      rw [hmade] at h
      dsimp only at h
      split at h
      · next hmissing =>
        have hpos := List.length_pos_iff.mpr hmissing.2
        have hless : p.parent.parts.length < p.parts.length := by
          rw [Path.parent, List.length_dropLast]
          omega
        rcases hparent : t.makeDirectories p.parent with ⟨e' | _, t₁⟩
        · rw [hparent] at h
          cases h
        · rw [hparent] at h
          have hopened := ih _ hless rfl hparent
          dsimp only at h
          cases hagain : t₁.makeDirectory p with
          | ok made =>
            rw [hagain] at h
            cases h
            exact hopened.trans (.of_made hagain)
          | error e' =>
            rw [hagain] at h
            obtain ⟨hsettle, rfl⟩ := Prod.mk.inj h
            exact hopened.trans (.of_stat (settle_ok hsettle))
      · obtain ⟨hsettle, rfl⟩ := Prod.mk.inj h
        exact .of_stat (settle_ok hsettle)

/-- Where a directory stands there is nothing to make. -/
theorem makeDirectories_of_stat (h : t.stat p = .ok .directory) :
    t.makeDirectories p = (.ok (), t) := by
  obtain ⟨hp, hway⟩ := stat_eq_directory.mp h
  have hfind : t.find p = .ok (t.placeOf p) :=
    find_eq_ok.mpr ⟨hp, fun q hq => hway q (List.dropLast_subset _ hq), rfl⟩
  have hthere : t.makeDirectory p = .error ⟨.alreadyThere, p, none⟩ := by
    unfold makeDirectory
    rw [hfind]
    dsimp only
    rw [hway _ (t.placeOf_mem_wayOf p)]
    exact if_pos (Or.inr rfl)
  unfold makeDirectories
  rw [hthere]
  simp [makeDirectories.settle, hasDirectory, h, FileFault.isSystem]

/-! ## Replacing a file -/

/-- What it takes to replace the file at a path by way of a file beside it. -/
structure Replaceable (t : FileTree) (p temporary : Path) : Prop where
  named : endsInName p = true
  speakable : Speakable p
  beside : Speakable temporary
  way : ∀ q ∈ (t.wayOf p).dropLast, t.get? q = some .directory
  wayBeside : ∀ q ∈ (t.wayOf temporary).dropLast, t.get? q = some .directory
  free : t.get? (t.placeOf p) ≠ some .directory
  freeBeside : t.get? (t.placeOf temporary) ≠ some .directory

/-- The tree after the file at a path was replaced. -/
def replaced (t : FileTree) (p temporary : Path) (bytes : List UInt8) : FileTree :=
  ((t.put (t.placeOf temporary) (.file bytes)).erase (t.placeOf temporary)).put (t.placeOf p)
    (.file bytes)

theorem cleanUp_ne_ok (t : FileTree) (temporary : Path) (e : FileError) (t' : FileTree) :
    t.cleanUp temporary e ≠ (.ok (), t') := by
  unfold cleanUp
  split
  · intro h
    cases h
  · intro h
    cases h

theorem write_eq_ok {bytes : List UInt8} :
    t.write p bytes = .ok t₁ ↔ t.find p = .ok (t.placeOf p) ∧
      t.get? (t.placeOf p) ≠ some .directory ∧ t₁ = t.put (t.placeOf p) (.file bytes) := by
  unfold write
  cases hfind : t.find p with
  | error fault => simp
  | ok place =>
    obtain ⟨_, _, rfl⟩ := find_eq_ok.mp hfind
    rcases hplace : t.get? (t.placeOf p) with _ | (bytes' | _) <;> simp [hplace, eq_comm]

theorem rename_eq_ok {q : Path} :
    t.rename p q = .ok t₁ ↔ t.find p = .ok (t.placeOf p) ∧ t.find q = .ok (t.placeOf q) ∧
      endsInName q = true ∧ t.get? (t.placeOf q) ≠ some .directory ∧
      ∃ e, t.get? (t.placeOf p) = some e ∧ t₁ = (t.erase (t.placeOf p)).put (t.placeOf q) e := by
  unfold rename
  cases hp : t.find p with
  | error fault => simp
  | ok source =>
    cases hq : t.find q with
    | error fault => simp
    | ok target =>
      obtain ⟨_, _, rfl⟩ := find_eq_ok.mp hp
      obtain ⟨_, _, rfl⟩ := find_eq_ok.mp hq
      dsimp only
      cases t.get? (t.placeOf p) with
      | none => simp
      | some e =>
        by_cases hname : endsInName q = true
        · rcases t.get? (t.placeOf q) with _ | (bytes | _) <;> simp [hname, eq_comm]
        · simp [hname]

/-- A file at a place where no directory stood is in nobody's way. -/
theorem get?_put_directory {place q : Place} (hplace : t.get? place ≠ some .directory)
    (bytes : List UInt8) :
    (t.put place (.file bytes)).get? q = some .directory ↔ t.get? q = some .directory := by
  rw [get?_put t (ne_root_of_get? hplace)]
  by_cases hq : q = place
  · subst hq
    simp [hplace]
  · rw [if_neg hq]

/-- No path is found or lost when a file is put where no directory stood. -/
theorem find_put_file {place : Place} (hplace : t.get? place ≠ some .directory)
    (bytes : List UInt8) (q : Path) :
    (t.put place (.file bytes)).find q = .ok (t.placeOf q) ↔ t.find q = .ok (t.placeOf q) := by
  have hway : (t.put place (.file bytes)).wayOf q = t.wayOf q := wayOf_congr rfl q
  have hplaceOf : (t.put place (.file bytes)).placeOf q = t.placeOf q := placeOf_congr rfl q
  simp only [find_eq_ok, hway, hplaceOf, get?_put_directory hplace]

/-- A file is replaced by writing beside it and moving what was written into its place. -/
theorem replace_ok_iff_exists_written {temporary : Path} {bytes : List UInt8} {t' : FileTree} :
    t.replace p temporary bytes = (.ok (), t') ↔
      ∃ written, t.write temporary bytes = .ok written ∧ written.rename temporary p = .ok t' := by
  unfold replace
  cases hwrite : t.write temporary bytes with
  | error e => simp [cleanUp_ne_ok]
  | ok written =>
    cases hmove : written.rename temporary p with
    | error e => simp [cleanUp_ne_ok, hmove]
    | ok moved => simp [hmove]

theorem replace_eq_ok {temporary : Path} {bytes : List UInt8} {t' : FileTree} :
    t.replace p temporary bytes = (.ok (), t') ↔
      Replaceable t p temporary ∧ t' = t.replaced p temporary bytes := by
  have hplaces (q : Path) : (t.put (t.placeOf temporary) (.file bytes)).placeOf q = t.placeOf q :=
    placeOf_congr rfl q
  -- what was written is what is moved
  have hself (h : t.get? (t.placeOf temporary) ≠ some .directory) :
      (t.put (t.placeOf temporary) (.file bytes)).get? (t.placeOf temporary) =
        some (.file bytes) := by
    rw [get?_put t (ne_root_of_get? h), if_pos rfl]
  rw [replace_ok_iff_exists_written]
  constructor
  · rintro ⟨written, hwrite, hmove⟩
    obtain ⟨hfindBeside, hfreeBeside, rfl⟩ := write_eq_ok.mp hwrite
    obtain ⟨_, hfind, hnamed, hfree, e, hsource, rfl⟩ := rename_eq_ok.mp hmove
    rw [hplaces, hself hfreeBeside] at hsource
    cases hsource
    rw [hplaces, find_put_file hfreeBeside] at hfind
    rw [hplaces, Ne, get?_put_directory hfreeBeside] at hfree
    obtain ⟨hbeside, hwayBeside, _⟩ := find_eq_ok.mp hfindBeside
    obtain ⟨hspeakable, hway, _⟩ := find_eq_ok.mp hfind
    refine ⟨⟨hnamed, hspeakable, hbeside, hway, hwayBeside, hfree, hfreeBeside⟩, ?_⟩
    rw [hplaces, hplaces]
    rfl
  · rintro ⟨h, rfl⟩
    have hfindBeside : t.find temporary = .ok (t.placeOf temporary) :=
      find_eq_ok.mpr ⟨h.beside, h.wayBeside, rfl⟩
    have hfind : t.find p = .ok (t.placeOf p) := find_eq_ok.mpr ⟨h.speakable, h.way, rfl⟩
    refine ⟨_, write_eq_ok.mpr ⟨hfindBeside, h.freeBeside, rfl⟩, rename_eq_ok.mpr ?_⟩
    rw [hplaces, hplaces, find_put_file h.freeBeside, find_put_file h.freeBeside, Ne,
      get?_put_directory h.freeBeside]
    exact ⟨hfindBeside, hfind, h.named, h.free, .file bytes, hself h.freeBeside, rfl⟩

/-- Replacing a file puts its new content in its place and leaves nothing beside it. -/
theorem get?_replaced {temporary : Path} (h : Replaceable t p temporary) (bytes : List UInt8)
    (q : Place) :
    (t.replaced p temporary bytes).get? q =
      if q = t.placeOf p then some (.file bytes)
      else if q = t.placeOf temporary then none else t.get? q := by
  have hbeside := ne_root_of_get? h.freeBeside
  rw [replaced, get?_put _ (ne_root_of_get? h.free), get?_erase _ hbeside, get?_put _ hbeside]
  by_cases hq : q = t.placeOf temporary
  · rw [if_pos hq, if_pos hq]
  · rw [if_neg hq, if_neg hq, if_neg hq]

end EventCodegen.FileTree
