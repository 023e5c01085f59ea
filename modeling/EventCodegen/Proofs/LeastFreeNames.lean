import EventCodegen.Proofs.UniqueNames

/-! Requests for names, one after the other. The search for a free name goes from number to number
without looking at a bound (`Finds`); it always ends, and where it ends is the name that a scope
hands out (`finds_iff`), the least free one. Along a run of requests the names in use are exactly
those handed out as unique, so these are pairwise distinct, and requests for other names leave no
trace (`handedOut_filter`). Of several scopes each answers as if it were alone, whatever is asked of
the others and whichever of them it was forked from (`apart_of_others`). -/
namespace EventCodegen.Scope

/-! ## The search, turn by turn -/

/-- The search for a free name that has come to `name` and goes on with `base` and the number
`next` if that is in use: it ends at `result`. -/
inductive Finds (used : List String) (base : String) : (name : String) → (next : Nat) →
    (result : String) → Prop
  | free {name : String} {next : Nat} : name ∉ used → Finds used base name next name
  | taken {name result : String} {next : Nat} : name ∈ used →
    Finds used base (base ++ toString next) (next + 1) result → Finds used base name next result

section
variable {used : List String} {base : String}

/-- A search ends in one place only. -/
theorem Finds.eq {name first second : String} {next : Nat} (h : Finds used base name next first)
    (h' : Finds used base name next second) : first = second := by
  induction h with
  | free hfree =>
    cases h' with
    | free _ => rfl
    | taken hused _ => exact absurd hused hfree
  | taken hused _ ih =>
    cases h' with
    | free hfree => exact absurd hused hfree
    | taken _ hrest => exact ih hrest

/-- A search that has come to some number goes on to the first one that is free. -/
theorem finds_candidate {k n : Nat} (hkn : k ≤ n) (hfree : candidate base n ∉ used)
    (hused : ∀ j, k ≤ j → j < n → candidate base j ∈ used) :
    Finds used base (candidate base k) (k + 1) (candidate base n) := by
  obtain ⟨d, rfl⟩ := Nat.exists_eq_add_of_le hkn
  -- on the numbers that are still to be tried
  induction d generalizing k with
  | zero => exact .free hfree
  | succ d ih =>
    refine .taken (hused k (Nat.le_refl k) (by omega)) ?_
    rw [show k + (d + 1) = k + 1 + d by omega] at hfree hused ⊢
    exact ih (by omega) hfree fun j hj hjn => hused j (by omega) hjn

/-- A search only asks which names are in use. -/
theorem Finds.congr {used' : List String} (hsame : ∀ s, s ∈ used ↔ s ∈ used')
    {name result : String} {next : Nat} (h : Finds used base name next result) :
    Finds used' base name next result := by
  induction h with
  | free hfree => exact .free (mt (hsame _).mpr hfree)
  | taken hused _ ih => exact .taken ((hsame _).mp hused) ih

/-- The search ends, and it ends at the name that is handed out. -/
theorem finds_iff {result : String} : Finds used base base 1 result ↔ result = free used base := by
  have hfinds : Finds used base base 1 (free used base) := by
    by_cases hmem : base ∈ used
    · obtain ⟨n, hn, heq, hfree, hused⟩ := free_of_mem hmem
      rw [heq]
      exact .taken hmem (finds_candidate hn hfree hused)
    · rw [free_of_not_mem hmem]
      exact .free hmem
  constructor
  · exact fun h => h.eq hfinds
  · rintro rfl
    exact hfinds

/-- The least free name for `base` where some names are taken: `base` itself if it is free, else
`base` with the least number from one on that makes it free. The search for it ends there. -/
structure IsLeastFree (taken : List String) (base name : String) : Prop where
  found : ∀ result, Finds taken base base 1 result ↔ result = name
  fresh : name ∉ taken
  plain : base ∉ taken → name = base
  numbered : base ∈ taken → ∃ k : Nat, 1 ≤ k ∧ name = base ++ toString k ∧
    ∀ j, 1 ≤ j → j < k → base ++ toString j ∈ taken

theorem isLeastFree_free (taken : List String) (base : String) :
    IsLeastFree taken base (free taken base) where
  found _ := finds_iff
  fresh := free_not_mem taken base
  plain := free_of_not_mem
  numbered h := by
    obtain ⟨n, hn, heq, _, hused⟩ := free_of_mem h
    exact ⟨n, hn, heq, hused⟩

/-- Only which names are taken matters, not their order. -/
theorem IsLeastFree.congr {taken taken' : List String} {name : String}
    (hsame : ∀ s, s ∈ taken ↔ s ∈ taken') (h : IsLeastFree taken base name) :
    IsLeastFree taken' base name where
  found result := by
    rw [← h.found result]
    exact ⟨Finds.congr fun s => (hsame s).symm, Finds.congr hsame⟩
  fresh := mt (hsame _).mpr h.fresh
  plain hfree := h.plain (mt (hsame _).mp hfree)
  numbered hmem := by
    obtain ⟨k, hk, hname, hused⟩ := h.numbered ((hsame _).mpr hmem)
    exact ⟨k, hk, hname, fun j hj hjk => (hsame _).mp (hused j hj hjk)⟩

end

/-! ## Runs of requests -/

/-- A scope that has not handed out a name. -/
def new (reserved : List String) (fallback : String) : Scope := { reserved, fallback }

/-- A request for a name. -/
structure Request where
  name : String
  style : NameStyle
  unique : Bool := false
  suffix : String := "_"
deriving DecidableEq, Repr

/-- The identifier for a request, before it is compared with the names in use. -/
def base (scope : Scope) (r : Request) : String := scope.identifier r.name r.style r.suffix

/-- The answer to a request, and the scope after it. -/
def answer (scope : Scope) (r : Request) : String × Scope :=
  if r.unique then scope.unique r.name r.style r.suffix else (scope.base r, scope)

/-- The scope after some requests. -/
def after (scope : Scope) (requests : List Request) : Scope :=
  requests.foldl (fun s r => (s.answer r).2) scope

/-- The answers to some requests. -/
def answers (scope : Scope) : List Request → List String
  | [] => []
  | r :: rest => (scope.answer r).1 :: answers (scope.answer r).2 rest

/-- The answers to the requests among some that are for unique names. -/
def handedOut (scope : Scope) (requests : List Request) : List String :=
  ((requests.zip (scope.answers requests)).filter (·.1.unique)).map (·.2)

section
variable {scope : Scope} {r : Request}

theorem answer_unique (h : r.unique = true) :
    scope.answer r = (free scope.used (scope.base r),
      { scope with used := free scope.used (scope.base r) :: scope.used }) := if_pos h

theorem answer_plain (h : r.unique = false) : scope.answer r = (scope.base r, scope) :=
  if_neg (by simp [h])

/-- No request changes the rules of a scope. -/
theorem base_answer (r' : Request) : (scope.answer r).2.base r' = scope.base r' := by
  cases h : r.unique with
  | true =>
    rw [answer_unique h]
    rfl
  | false => rw [answer_plain h]

theorem handedOut_cons (rest : List Request) : scope.handedOut (r :: rest) =
    (if r.unique then [(scope.answer r).1] else []) ++ (scope.answer r).2.handedOut rest := by
  unfold handedOut
  rw [answers, List.zip_cons_cons, List.filter_cons]
  split <;> rfl

/-- A run keeps the rules, and the names in use after it are those before it and those that it has
handed out. -/
theorem after_spec (requests : List Request) (scope : Scope) :
    (∀ r, (scope.after requests).base r = scope.base r) ∧
    ∀ s, s ∈ (scope.after requests).used ↔ s ∈ scope.handedOut requests ∨ s ∈ scope.used := by
  induction requests generalizing scope with
  | nil => exact ⟨fun _ => rfl, fun s => (or_iff_right List.not_mem_nil).symm⟩
  | cons r rest ih =>
    obtain ⟨hbase, hused⟩ := ih (scope.answer r).2
    refine ⟨fun r' => (hbase r').trans (base_answer r'), fun s => ?_⟩
    show s ∈ ((scope.answer r).2.after rest).used ↔ _
    rw [hused, handedOut_cons]
    cases h : r.unique with
    | true =>
      rw [answer_unique h]
      simp [or_assoc, or_comm]
    | false =>
      rw [answer_plain h]
      simp

/-- What a run hands out is new, and each name of it is handed out once. -/
theorem nodup_handedOut (requests : List Request) (scope : Scope) :
    (scope.handedOut requests).Nodup ∧ ∀ s ∈ scope.handedOut requests, s ∉ scope.used := by
  induction requests generalizing scope with
  | nil => exact ⟨List.nodup_nil, List.forall_mem_nil _⟩
  | cons r rest ih =>
    obtain ⟨hnodup, hnew⟩ := ih (scope.answer r).2
    rw [handedOut_cons]
    cases h : r.unique with
    | true =>
      rw [answer_unique h] at hnodup hnew ⊢
      refine ⟨List.nodup_cons.mpr ⟨fun hmem => hnew _ hmem List.mem_cons_self, hnodup⟩, ?_⟩
      refine List.forall_mem_cons.mpr ⟨free_not_mem _ _, fun s hs => ?_⟩
      exact fun hused => hnew s hs (List.mem_cons_of_mem _ hused)
    | false =>
      rw [answer_plain h] at hnodup hnew ⊢
      exact ⟨hnodup, hnew⟩

/-- Requests for names that need not be unique make no difference to those for unique ones. -/
theorem handedOut_filter (requests : List Request) (scope : Scope) :
    scope.handedOut requests = scope.answers (requests.filter (·.unique)) := by
  induction requests generalizing scope with
  | nil => rfl
  | cons r rest ih =>
    rw [handedOut_cons, ih]
    cases h : r.unique with
    | true =>
      rw [List.filter_cons_of_pos h]
      rfl
    | false =>
      rw [List.filter_cons_of_neg (by simp [h]), answer_plain h]
      rfl

end

/-- What is answered to a request where some names have been handed out: the least free name if a
unique one is asked for, else the identifier itself. -/
def Answers (scope : Scope) (handed : List String) (r : Request) (name : String) : Prop :=
  if r.unique then IsLeastFree handed (scope.base r) name else name = scope.base r

/-- A scope gives the answer that the names it has handed out so far ask for. -/
theorem answers_after (reserved : List String) (fallback : String) (earlier : List Request)
    (r : Request) : (new reserved fallback).Answers ((new reserved fallback).handedOut earlier) r
      (((new reserved fallback).after earlier).answer r).1 := by
  obtain ⟨hbase, hmem⟩ := after_spec earlier (new reserved fallback)
  unfold Answers
  cases h : r.unique with
  | true =>
    rw [answer_unique h, hbase, if_pos rfl]
    refine (isLeastFree_free _ _).congr fun s => ?_
    rw [hmem]
    exact or_iff_left List.not_mem_nil
  | false =>
    rw [answer_plain h, hbase, if_neg Bool.false_ne_true]

/-- What is asked of a scope before it is forked makes no difference to the fork. -/
theorem fork_after (scope : Scope) (earlier : List Request) (extra : List String) :
    (scope.after earlier).fork extra = scope.fork extra := by
  induction earlier generalizing scope with
  | nil => rfl
  | cons r rest ih =>
    refine (ih (scope.answer r).2).trans ?_
    cases h : r.unique with
    | true => rw [answer_unique h]; rfl
    | false => rw [answer_plain h]

/-! ## Several scopes -/

/-- A step on some scopes that are known by their places: a request to one of them, or a fork of one
of them, which comes last. -/
inductive Step
  | ask (place : Nat) (r : Request)
  | fork (place : Nat) (extra : List String)

/-- The scopes after a step. -/
def Step.apply (scopes : List Scope) : Step → List Scope
  | ask i r => scopes.modify i fun s => (s.answer r).2
  | fork i extra => scopes ++ (scopes[i]?.map fun s => s.fork extra).toList

/-- The scopes after some steps. -/
def applyAll (scopes : List Scope) (steps : List Step) : List Scope := steps.foldl Step.apply scopes

/-- The answers that the scope in one place gives along some steps. -/
def told (place : Nat) (scopes : List Scope) : List Step → List String
  | [] => []
  | .ask i r :: rest =>
    (if i = place then (scopes[place]?.map fun s => (s.answer r).1).toList else []) ++
      told place (Step.apply scopes (.ask i r)) rest
  | .fork i extra :: rest => told place (Step.apply scopes (.fork i extra)) rest

/-- The request of a step, if it is one to the scope in a certain place. -/
def Step.requestTo? (place : Nat) : Step → Option Request
  | ask i r => if i = place then some r else none
  | fork _ _ => none

/-- The requests among some steps to the scope in one place. -/
def requestsTo (place : Nat) (steps : List Step) : List Request :=
  steps.filterMap (Step.requestTo? place)

/-- A step leaves every scope alone that it makes no request to. -/
theorem getElem?_apply {scopes : List Scope} {place : Nat} {s : Scope}
    (h : scopes[place]? = some s) (step : Step) : (step.apply scopes)[place]? =
      some (s.after (step.requestTo? place).toList) := by
  cases step with
  | ask i r =>
    rw [Step.apply, List.getElem?_modify, h, Step.requestTo?]
    split <;> rfl
  | fork i extra =>
    rw [Step.apply, List.getElem?_append_left (List.getElem?_eq_some_iff.mp h).1, h]
    rfl

/-- Of several scopes each gives the answers that it would give to the requests made to it if it
were alone, and is left in the state that these lead to. -/
theorem apart_of_others {place : Nat} (steps : List Step) {scopes : List Scope} {s : Scope}
    (h : scopes[place]? = some s) : told place scopes steps = s.answers (requestsTo place steps) ∧
      (applyAll scopes steps)[place]? = some (s.after (requestsTo place steps)) := by
  induction steps generalizing scopes s with
  | nil => exact ⟨rfl, h⟩
  | cons step rest ih =>
    obtain ⟨htold, hafter⟩ := ih (getElem?_apply h step)
    cases step with
    | ask i r =>
      by_cases hi : i = place
      · have hrequest : Step.requestTo? place (.ask i r) = some r := if_pos hi
        rw [hrequest] at htold hafter
        rw [requestsTo, List.filterMap_cons_some hrequest, told, if_pos hi, h, htold]
        exact ⟨rfl, hafter⟩
      · have hrequest : Step.requestTo? place (.ask i r) = none := if_neg hi
        rw [hrequest] at htold hafter
        rw [requestsTo, List.filterMap_cons_none hrequest, told, if_neg hi, htold]
        exact ⟨rfl, hafter⟩
    | fork i extra => exact ⟨htold, hafter⟩

/-- After a fork the scope that was forked and the fork answer, among any others and whatever is
asked of these, as if they were alone; and the fork answers like one of a scope that nothing was
asked of. -/
theorem apart_of_fork (scope : Scope) (before later : List Scope) (earlier : List Request)
    (extra : List String) (steps : List Step) :
    let scopes := before ++ scope.after earlier :: later
    let forked := Step.apply scopes (.fork before.length extra)
    told before.length forked steps =
      (scope.after earlier).answers (requestsTo before.length steps) ∧
    told scopes.length forked steps =
      (scope.fork extra).answers (requestsTo scopes.length steps) := by
  intro scopes forked
  have hplace : scopes[before.length]? = some (scope.after earlier) := by simp [scopes]
  have hforked : forked = scopes ++ [scope.fork extra] := by
    show scopes ++ (scopes[before.length]?.map fun s => s.fork extra).toList = _
    rw [hplace, Option.map_some, fork_after]
    rfl
  constructor
  · exact (apart_of_others steps (getElem?_apply hplace (.fork before.length extra))).1
  · apply And.left
    apply apart_of_others
    rw [hforked, List.getElem?_concat_length]

/-- No scope hands out a unique name twice. Every request gets what the names handed out before it
ask for, by a search that ends; those for other names make no difference to this, and get the same
and leave the scope as it is whatever names are in use. A scope and its fork answer from then on,
among any other scopes, as if each were alone. -/
theorem least_free_names (reserved : List String) (fallback : String) :
    (∀ requests, ((new reserved fallback).handedOut requests).Nodup) ∧
    (∀ earlier r, (new reserved fallback).Answers ((new reserved fallback).handedOut earlier) r
      (((new reserved fallback).after earlier).answer r).1) ∧
    (∀ requests, (new reserved fallback).handedOut requests =
      (new reserved fallback).answers (requests.filter (·.unique))) ∧
    (∀ used name style suffix, answer { reserved, fallback, used } { name, style, suffix } =
      ((new reserved fallback).identifier name style suffix, { reserved, fallback, used })) ∧
    ∀ (before later : List Scope) (earlier : List Request) (extra : List String)
      (steps : List Step),
      let scopes := before ++ (new reserved fallback).after earlier :: later
      let forked := Step.apply scopes (.fork before.length extra)
      told before.length forked steps =
        ((new reserved fallback).after earlier).answers (requestsTo before.length steps) ∧
      told scopes.length forked steps =
        (new (reserved ++ extra) fallback).answers (requestsTo scopes.length steps) :=
  ⟨fun requests => (nodup_handedOut requests _).1, answers_after reserved fallback,
    fun requests => handedOut_filter requests _, fun _ _ _ _ => rfl,
    apart_of_fork (new reserved fallback)⟩

/-- A name with a number of its own clashes with one that was made up. -/
example : (new [] "value").answers (["a", "a", "a1"].map fun name =>
    { name, style := .camel, unique := true }) = ["a", "a1", "a11"] := by decide +kernel

end EventCodegen.Scope
