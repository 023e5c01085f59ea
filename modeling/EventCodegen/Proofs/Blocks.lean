import EventCodegen.Proofs.Identifiers

/-! Texts made of blocks that tell where they end. If a block determines what it was made from and
what follows it, and what follows the last block does not begin like one, then a run of blocks
determines the whole list it was made from, and what follows the run (`flatMap_append_inj`). -/
namespace EventCodegen

section
variable {α β γ : Type} {f g : α → List γ} {k : α → β} {P : List γ → Prop}

/-- A run of blocks has only one reading. `k` is what a block tells about its origin. -/
theorem flatMap_append_inj {as bs : List α}
    (hblock : ∀ a ∈ as, ∀ b ∈ bs, ∀ r s, f a ++ r = g b ++ s → k a = k b ∧ r = s)
    (hleft : ∀ a ∈ as, ∀ r, ¬P (f a ++ r)) (hright : ∀ b ∈ bs, ∀ s, ¬P (g b ++ s))
    {r s : List γ} (hr : P r) (hs : P s) (h : as.flatMap f ++ r = bs.flatMap g ++ s) :
    as.map k = bs.map k ∧ r = s := by
  induction as generalizing bs with
  | nil =>
    cases bs with
    | nil => exact ⟨rfl, h⟩
    | cons b bs =>
      -- the run on the right goes on where the left one has ended
      rw [List.flatMap_nil, List.nil_append, List.flatMap_cons, List.append_assoc] at h
      exact absurd (h ▸ hr) (hright b List.mem_cons_self _)
  | cons a as ih =>
    cases bs with
    | nil =>
      rw [List.flatMap_cons, List.append_assoc, List.flatMap_nil, List.nil_append] at h
      exact absurd (h ▸ hs) (hleft a List.mem_cons_self _)
    | cons b bs =>
      rw [List.flatMap_cons, List.flatMap_cons, List.append_assoc, List.append_assoc] at h
      obtain ⟨hkey, hrest⟩ := hblock a List.mem_cons_self b List.mem_cons_self _ _ h
      obtain ⟨hkeys, hend⟩ := ih
        (fun a ha b hb => hblock a (List.mem_cons_of_mem _ ha) b (List.mem_cons_of_mem _ hb))
        (fun a ha => hleft a (List.mem_cons_of_mem _ ha))
        (fun b hb => hright b (List.mem_cons_of_mem _ hb)) hrest
      exact ⟨by rw [List.map_cons, List.map_cons, hkey, hkeys], hend⟩

/-- A run of items that an item of another kind ends has only one reading. -/
theorem map_append_inj {p q : α → γ} {P : γ → Prop} {as bs : List α} {x y : γ} {r s : List γ}
    (hitem : ∀ a ∈ as, ∀ b ∈ bs, p a = q b → k a = k b)
    (hleft : ∀ a ∈ as, ¬P (p a)) (hright : ∀ b ∈ bs, ¬P (q b)) (hx : P x) (hy : P y)
    (h : as.map p ++ x :: r = bs.map q ++ y :: s) :
    as.map k = bs.map k ∧ x = y ∧ r = s := by
  rw [List.map_eq_flatMap, List.map_eq_flatMap] at h
  have hrun := flatMap_append_inj (P := fun l => ∃ z rest, l = z :: rest ∧ P z) (k := k)
    ?_ ?_ ?_ ⟨x, r, rfl, hx⟩ ⟨y, s, rfl, hy⟩ h
  · exact ⟨hrun.1, List.cons.inj hrun.2⟩
  · intro a ha b hb r s hab
    obtain ⟨hhead, hrest⟩ := List.cons.inj hab
    exact ⟨hitem a ha b hb hhead, hrest⟩
  · rintro a ha _ ⟨z, _, hz, hlast⟩
    exact hleft a ha ((List.cons.inj hz).1 ▸ hlast)
  · rintro b hb _ ⟨z, _, hz, hlast⟩
    exact hright b hb ((List.cons.inj hz).1 ▸ hlast)

/-- A run of items can be skipped up to an item of another kind. -/
theorem append_inj_of_last {P : γ → Prop} {as bs : List γ} {x y : γ} {r s : List γ}
    (hleft : ∀ a ∈ as, ¬P a) (hright : ∀ b ∈ bs, ¬P b) (hx : P x) (hy : P y)
    (h : as ++ x :: r = bs ++ y :: s) : x = y ∧ r = s := by
  rw [← List.map_id as, ← List.map_id bs] at h
  exact (map_append_inj (k := fun _ => ()) (fun _ _ _ _ _ => rfl) hleft hright hx hy h).2

/-- A run of items up to the end has only one reading. -/
theorem map_inj_of_items {p q : α → γ} {as bs : List α}
    (hitem : ∀ a ∈ as, ∀ b ∈ bs, p a = q b → k a = k b) (h : as.map p = bs.map q) :
    as.map k = bs.map k := by
  have hrun : as.flatMap (fun a => [p a]) ++ [] = bs.flatMap (fun b => [q b]) ++ [] := by
    rw [← List.map_eq_flatMap, ← List.map_eq_flatMap, h]
  refine (flatMap_append_inj (P := fun l => l = []) ?_ ?_ ?_ rfl rfl hrun).1
  · intro a ha b hb r s hab
    obtain ⟨hhead, hrest⟩ := List.cons.inj hab
    exact ⟨hitem a ha b hb hhead, hrest⟩
  · exact fun _ _ _ => List.cons_ne_nil _ _
  · exact fun _ _ _ => List.cons_ne_nil _ _

end

/-- What is made from lists is the same if it depends on nothing but keys that agree. -/
theorem map_eq_of_keys {α β γ δ : Type} {k : α → γ} {l : β → γ} {f : α → δ} {g : β → δ}
    {as : List α} {bs : List β} (h : as.map k = bs.map l) (hitem : ∀ a b, k a = l b → f a = g b) :
    as.map f = bs.map g := by
  induction as generalizing bs with
  | nil =>
    cases bs with
    | nil => rfl
    | cons b bs => cases h
  | cons a as ih =>
    cases bs with
    | nil => cases h
    | cons b bs =>
      obtain ⟨hkey, hrest⟩ := List.cons.inj h
      rw [List.map_cons, List.map_cons, hitem a b hkey, ih hrest]

/-- An identifier ends where a character stands that may not be in one. -/
theorem Naming.identifier_append_inj {a b r s : List Char} {x y : Char}
    (ha : ∀ c ∈ a, isIdentifierChar c = true) (hb : ∀ c ∈ b, isIdentifierChar c = true)
    (hx : isIdentifierChar x = false) (hy : isIdentifierChar y = false)
    (h : a ++ x :: r = b ++ y :: s) : a = b ∧ x = y ∧ r = s := by
  induction a generalizing b with
  | nil =>
    cases b with
    | nil => exact ⟨rfl, List.cons.inj h⟩
    | cons d b =>
      have hd := hb d List.mem_cons_self
      rw [← (List.cons.inj h).1, hx] at hd
      cases hd
  | cons c a ih =>
    cases b with
    | nil =>
      have hc := ha c List.mem_cons_self
      rw [(List.cons.inj h).1, hy] at hc
      cases hc
    | cons d b =>
      obtain ⟨rfl, hrest⟩ := List.cons.inj h
      obtain ⟨rfl, hend⟩ := ih (fun e he => ha e (List.mem_cons_of_mem _ he))
        (fun e he => hb e (List.mem_cons_of_mem _ he)) hrest
      exact ⟨rfl, hend⟩

end EventCodegen
