import EventCodegen.Generation.FromSource
import EventCodegen.Proofs.CategoryLines
import EventCodegen.Proofs.FetchedTexts
import EventCodegen.Proofs.LineEnds

/-! A plan in a file and the same plan behind an address. Of a file the line ends are unified, of an
answer they are not, but the plan that is read is the same, or its failure is of the same kind
(`kind_readPlan_unifyNewlines`). What comes after that works on the files below a destination or on
the memory alone (`Output.Alike`), so both sources lead to the same generation
(`same_generation`). -/
namespace EventCodegen

variable {α β : Type} {w w' : World}

/-! ## Outputs -/

namespace Output

/-- Two worlds that are the same to an output: in the files that it writes, or in the memory. -/
def SameGround (output : Output) (w w' : World) : Prop :=
  match output with
  | directory _ => w.files = w'.files
  | memory => w.held = w'.held

variable {output : Output}

theorem SameGround.noting (h : output.SameGround w w') (notes notes' : List Note) :
    output.SameGround (w.noting notes) (w'.noting notes') := by
  cases output <;> exact h

theorem SameGround.after (h : output.SameGround w w') (sent sent' : List Request)
    (notes notes' : List Note) :
    output.SameGround (w.after sent notes) (w'.after sent' notes') := by
  cases output <;> exact h

/-- Two runs that come to the same in worlds that are the same to an output: they end with the same
result or with failures of one kind, in worlds that are again the same to it. -/
def Alike (output : Output) (x y : Run α) : Prop :=
  ∀ w w', output.SameGround w w' →
    (x.apply w).1.mapError Failure.kind = (y.apply w').1.mapError Failure.kind ∧
    output.SameGround (x.apply w).2 (y.apply w').2

namespace Alike

theorem pure (a : α) : output.Alike (Pure.pure a) (Pure.pure a) := fun _ _ h => ⟨rfl, h⟩

theorem fail (e : Failure) : output.Alike (Run.fail e : Run α) (Run.fail e) := fun _ _ h => ⟨rfl, h⟩

theorem bind {x y : Run α} {f g : α → Run β} (hxy : output.Alike x y)
    (hfg : ∀ a, output.Alike (f a) (g a)) : output.Alike (x >>= f) (y >>= g) := by
  intro w w' h
  have hfirst := hxy w w' h
  rw [Run.apply_bind, Run.apply_bind]
  generalize x.apply w = found at hfirst ⊢
  generalize y.apply w' = found' at hfirst ⊢
  obtain ⟨houtcome, hground⟩ := hfirst
  -- both first steps fail, or both go on with the same
  rcases found with ⟨e | a, w₁⟩ <;> rcases found' with ⟨e' | b, w₁'⟩
  · exact ⟨congrArg Except.error (Except.error.inj houtcome), hground⟩
  · cases houtcome
  · cases houtcome
  · obtain rfl : a = b := Except.ok.inj houtcome
    exact hfg a w₁ w₁' hground

theorem note (level : Level) (part message : String) :
    output.Alike (Run.note level part message) (Run.note level part message) :=
  fun _ _ h => ⟨rfl, h.noting _ _⟩

/-- Computations that only make notes come to the same if their outcomes do. -/
theorem ofTraced {x y : Traced α}
    (h : x.outcome.mapError Failure.kind = y.outcome.mapError Failure.kind) :
    output.Alike (Run.ofTraced x) (Run.ofTraced y) := by
  intro w w' hground
  rw [Run.apply_ofTraced, Run.apply_ofTraced]
  exact ⟨h, hground.noting _ _⟩

theorem onFiles {d : Path} (f : FileTree → Except FileError α × FileTree) :
    (directory d).Alike (Run.onFiles f) (Run.onFiles f) := by
  intro w w' h
  have hfiles : w.files = w'.files := h
  rw [Run.apply_onFiles, Run.apply_onFiles, hfiles]
  exact ⟨rfl, rfl⟩

theorem write (output : Output) (f : GeneratedFile) :
    output.Alike (output.write f) (output.write f) := by
  cases output with
  | memory =>
    refine .bind (fun w w' h => ?_) fun _ => .pure _
    have hheld : w.held = w'.held := h
    exact ⟨rfl, congrArg (hold f.path.text f.content) hheld⟩
  | directory d =>
    refine .bind (.onFiles _) fun _ => ?_
    split
    · exact .fail _
    · exact .bind (.onFiles _) fun _ => .bind (.note _ _ _) fun _ => .pure _

theorem writeAll (output : Output) : ∀ files : List GeneratedFile,
    output.Alike (output.writeAll files) (output.writeAll files)
  | [] => .pure _
  | f :: rest => .bind (.write output f) fun _ => .bind (writeAll output rest) fun _ => .pure _

end Alike

end Output

/-! ## Plans -/

namespace Session

open Text (unifyNewlines)

/-- Unifying line ends changes neither the plan that is read nor the kind of a failure. -/
theorem kind_readPlan_unifyNewlines (s : List Char) :
    (readPlan (String.ofList (unifyNewlines s))).outcome.mapError Failure.kind =
      (readPlan (String.ofList s)).outcome.mapError Failure.kind := by
  have hsame := Json.sameParse_unifyNewlines s
  rw [outcome_readPlan_eq, outcome_readPlan_eq, Plan.parse, Plan.parse]
  generalize Json.parse (String.ofList s) = found at hsame
  generalize Json.parse (String.ofList (unifyNewlines s)) = found' at hsame
  cases hsame <;> rfl

theorem alike_generate (s : Session) (output : Output) (text : List Char) :
    output.Alike (s.generate output (String.ofList (unifyNewlines text)))
      (s.generate output (String.ofList text)) := by
  refine .bind (.ofTraced (kind_readPlan_unifyNewlines text)) fun categories => ?_
  exact .bind (.ofTraced rfl) fun g => .bind (.writeAll output g.files) fun _ =>
    .bind (.note _ _ _) fun _ => .pure _

end Session

/-! ## Sources -/

namespace Loading

open CommandLine (given? given?_eq_some)

theorem fetch_file {p : String} {s : List Char} (hp : p ≠ "")
    (hfile : w.files.stat (Path.ofString p) = .ok (.file (Text.encode s))) :
    ∃ notes, (fetch (.text p) .null standardTimeout).apply w =
      (.ok (String.ofList (Text.unifyNewlines s)), w.after [] notes) := by
  have hgiven : given? (some p) = some p := given?_eq_some.mpr ⟨rfl, hp⟩
  obtain ⟨outcome, sent, notes, hrun, hends⟩ := leads_fetch (some p) none standardTimeout w
  refine ⟨notes, hrun.trans ?_⟩
  -- of all ends of fetching only that with a text fits what stands at the path
  cases hends with
  | noSource hnone _ => cases hgiven.symm.trans hnone
  | twoSources _ hurl => cases hurl
  | url _ hurl _ => cases hurl
  | file hsome _ hends =>
    obtain rfl := Option.some.inj (hgiven.symm.trans hsome)
    cases hends with
    | text hstat =>
      have hbytes := Entry.file.inj (Except.ok.inj (hfile.symm.trans hstat))
      rw [Text.encode_injective hbytes]
    | undecodable hstat hdecode =>
      cases hfile.symm.trans hstat
      rw [Text.decode_encode] at hdecode
      cases hdecode
    | directory hstat => cases hfile.symm.trans hstat
    | missing hstat _ => cases hfile.symm.trans hstat
    | tooLong hstat => cases hfile.symm.trans hstat

theorem fetch_url {url text : String} {status : Int} {contentType : Option String}
    (hurl : Url.verdict url = .usable) (hanswer : w.response = .answer status contentType text)
    (hstatus : status < 400) :
    ∃ notes, (fetch .null (.text url) standardTimeout).apply w =
      (.ok text, w.after [⟨url, standardTimeout⟩] notes) := by
  have hne : url ≠ "" := by
    rintro rfl
    exact absurd hurl (by decide)
  have hgiven : given? (some url) = some url := given?_eq_some.mpr ⟨rfl, hne⟩
  obtain ⟨outcome, sent, notes, hrun, hends⟩ := leads_fetch none (some url) standardTimeout w
  refine ⟨notes, hrun.trans ?_⟩
  -- of all ends of fetching only that with a text fits the address and the answer
  cases hends with
  | noSource _ hnone => cases hgiven.symm.trans hnone
  | twoSources hfile _ => cases hfile
  | file hfile _ _ => cases hfile
  | url _ hsome hends =>
    obtain rfl := Option.some.inj (hgiven.symm.trans hsome)
    cases hends with
    | malformed hverdict => cases hurl.symm.trans hverdict
    | incomplete hverdict => cases hurl.symm.trans hverdict
    | text _ h _ =>
      cases hanswer.symm.trans h
      rfl
    | status _ h hrefused =>
      cases hanswer.symm.trans h
      omega
    | timeout _ h => cases hanswer.symm.trans h
    | noConnection _ h => cases hanswer.symm.trans h
    | otherFailure _ h => cases hanswer.symm.trans h

end Loading

namespace Session

/-- For every text, stored in a file or served at a usable address, and for every session and
output, both sources lead to the same generation, and where there is none, to failures of the same
kind. What has been written is the same, too. -/
theorem same_generation (s : Session) (output : Output) {p url text : String} {status : Int}
    {contentType : Option String} {w w' : World} (hp : p ≠ "")
    (hfile : w.files.stat (Path.ofString p) = .ok (.file (Text.encode text.toList)))
    (hurl : Url.verdict url = .usable) (hanswer : w'.response = .answer status contentType text)
    (hstatus : status < 400) (hground : output.SameGround w w') :
    (∀ g, ((s.generateFrom output (.text p) .null).apply w).1 = .ok g ↔
      ((s.generateFrom output .null (.text url)).apply w').1 = .ok g) ∧
    ((s.generateFrom output (.text p) .null).apply w).1.mapError Failure.kind =
      ((s.generateFrom output .null (.text url)).apply w').1.mapError Failure.kind ∧
    output.SameGround ((s.generateFrom output (.text p) .null).apply w).2
      ((s.generateFrom output .null (.text url)).apply w').2 := by
  obtain ⟨notes, hread⟩ := Loading.fetch_file hp hfile
  obtain ⟨notes', hreceived⟩ := Loading.fetch_url hurl hanswer hstatus
  have halike := s.alike_generate output text.toList _ _
    (hground.after [] [⟨url, Loading.standardTimeout⟩] notes notes')
  rw [String.ofList_toList] at halike
  rw [generateFrom, generateFrom, Run.apply_bind_of_ok hread, Run.apply_bind_of_ok hreceived]
  obtain ⟨houtcome, hground'⟩ := halike
  refine ⟨fun g => ?_, houtcome, hground'⟩
  rw [← mapError_eq_ok (f := Failure.kind), houtcome, mapError_eq_ok]

/-- A world with the same plan in a file and behind every address, with a line end in it that takes
two characters. -/
def bothSources : World :=
  { files := { entries := [(["plan.json", "home"], .file (Text.encode "[\r\n]".toList)),
      (["home"], .directory)] }
    response := .answer 200 none "[\r\n]" }

theorem same_generation_line_end :
    "plan.json" ≠ "" ∧ bothSources.files.stat (Path.ofString "plan.json") =
      .ok (.file (Text.encode "[\r\n]".toList)) ∧ Url.verdict "http://a/b" = .usable ∧
    bothSources.response = .answer 200 none "[\r\n]" ∧ (200 : Int) < 400 ∧
    ∃ g, (((standard .python).generateFrom .memory (.text "plan.json") .null).apply
        bothSources).1 = .ok g ∧
      (((standard .python).generateFrom .memory .null (.text "http://a/b")).apply
        bothSources).1 = .ok g := by
  have hgoes : (((standard .python).generateFrom .memory (.text "plan.json") .null).apply
      bothSources).1.toOption.isSome = true := by decide +kernel
  refine ⟨by decide, rfl, by decide, rfl, by decide, ?_⟩
  have hsame := (same_generation (standard .python) .memory (by decide : "plan.json" ≠ "") rfl
    (by decide : Url.verdict "http://a/b" = .usable) (rfl : bothSources.response = _) (by decide)
    (rfl : bothSources.held = bothSources.held)).1
  rcases hrun : ((standard .python).generateFrom .memory (.text "plan.json") .null).apply
      bothSources with ⟨e | g, w'⟩
  · rw [hrun] at hgoes
    cases hgoes
  · exact ⟨g, rfl, (hsame g).mp (congrArg Prod.fst hrun)⟩

end Session
end EventCodegen
