import EventCodegen.Proofs.EncodedText
import EventCodegen.Proofs.ReportedFailures

/-! How fetching the text of a plan ends, from any file or address, and what it leaves behind:
notes, and one request if an address is usable (`Run.Leads`). Everything that may be at a path and
every answer has an end of its own (`FileEnds`, `UrlEnds`). All ends are a text or failures that
fetching is known for but two: a path may be too long to be asked about, and an address may be so
malformed that nothing is found out about it (`fetch_documented_iff`). -/
namespace EventCodegen

/-! ## Requests and notes -/

/-- The world after some requests and notes. -/
def World.after (w : World) (sent : List Request) (notes : List Note) : World :=
  { w with requests := w.requests ++ sent, journal := w.journal ++ notes }

namespace Run

variable {α β : Type} {w : World} {P : Except Failure α → List Request → Prop}

/-- A computation that leaves nothing behind but notes and requests, with `P` known of its outcome
and of the requests. -/
def Leads (x : Run α) (w : World) (P : Except Failure α → List Request → Prop) : Prop :=
  ∃ outcome sent notes, x.apply w = (outcome, w.after sent notes) ∧ P outcome sent

namespace Leads

theorem pure {a : α} (h : P (.ok a) []) : (Pure.pure a : Run α).Leads w P :=
  ⟨_, [], [], by simp [World.after]; rfl, h⟩

theorem fail {e : Failure} (h : P (.error e) []) : (Run.fail e : Run α).Leads w P :=
  ⟨_, [], [], by simp [World.after]; rfl, h⟩

theorem mono {Q : Except Failure α → List Request → Prop} {x : Run α} (h : x.Leads w P)
    (hPQ : ∀ outcome sent, P outcome sent → Q outcome sent) : x.Leads w Q := by
  obtain ⟨outcome, sent, notes, hrun, hP⟩ := h
  exact ⟨outcome, sent, notes, hrun, hPQ outcome sent hP⟩

theorem ok_bind {x : Except Failure β} {b : β} (hx : x = .ok b) {f : β → Run α}
    (h : (f b).Leads w P) : (Run.ofExcept x >>= f).Leads w P := by
  subst hx
  exact h

theorem get_bind {f : World → Run α} (h : (f w).Leads w P) :
    (MonadState.get >>= f).Leads w P := h

theorem note_bind {level : Level} {part message : String} {f : Unit → Run α}
    (h : (f ()).Leads (w.noting [⟨level, journalName part, message⟩]) P) :
    (Run.note level part message >>= f).Leads w P := by
  obtain ⟨outcome, sent, notes, hrest, hP⟩ := h
  refine ⟨outcome, sent, ⟨level, journalName part, message⟩ :: notes, ?_, hP⟩
  rw [apply_bind_of_ok (apply_note level part message w), hrest]
  simp [World.after, World.noting]

theorem when_note {c : Prop} [Decidable c] {level : Level} {part message : String} {rest : Run α}
    (h : ∀ w', rest.Leads w' P) :
    (if c then Run.note level part message >>= fun _ => rest else rest).Leads w P := by
  split
  · exact note_bind (h _)
  · exact h w

theorem request_bind {url : String} {timeout : Json} {f : Response → Run α}
    (h : (f w.response).Leads { w with requests := w.requests ++ [⟨url, timeout⟩] }
      fun outcome sent => P outcome (⟨url, timeout⟩ :: sent)) :
    (Loading.request url timeout >>= f).Leads w P := by
  obtain ⟨outcome, sent, notes, hrest, hP⟩ := h
  have hrequest : (Loading.request url timeout).apply w =
      (.ok w.response, { w with requests := w.requests ++ [⟨url, timeout⟩] }) := rfl
  refine ⟨outcome, ⟨url, timeout⟩ :: sent, notes, ?_, hP⟩
  rw [apply_bind_of_ok hrequest, hrest]
  simp [World.after]

end Leads

end Run

namespace Loading

open Run

theorem leads_refuse {α : Type} {w : World} {P : Except Failure α → List Request → Prop}
    (noted : String) {e : LoadError} (h : P (.error (.load e)) []) :
    (refuse noted e : Run α).Leads w P :=
  .note_bind (.fail h)

/-! ## Files -/

/-- How fetching from a path ends, whatever is there. -/
inductive FileEnds (files : FileTree) (path : Path) : Except Failure String → Prop
  | text {s : List Char} : files.stat path = .ok (.file (Text.encode s)) →
    FileEnds files path (.ok (String.ofList (Text.unifyNewlines s)))
  | undecodable {bytes : List UInt8} {fault : Text.DecodeFault} :
    files.stat path = .ok (.file bytes) → Text.decode bytes = .error fault →
    FileEnds files path (.error (.load (.undecodable path fault)))
  | directory : files.stat path = .ok .directory →
    FileEnds files path (.error (.load (.unreadable path ⟨.isDirectory, path, none⟩)))
  | missing {fault : FileFault} : files.stat path = .error fault → fault ≠ .nameTooLong →
    FileEnds files path (.error (.noPlanFile path))
  | tooLong : files.stat path = .error .nameTooLong →
    FileEnds files path (.error (.file ⟨.nameTooLong, path, none⟩))

theorem leads_fromFile (p : String) (w : World) : (fromFile (.text p)).Leads w fun outcome sent =>
    FileEnds w.files (Path.ofString p) outcome ∧ sent = [] := by
  have hpath : Settings.pathOf (.text p) = .ok (Path.ofString p) := rfl
  unfold fromFile
  refine .ok_bind hpath (.note_bind (.get_bind ?_))
  dsimp only [World.noting]
  rw [FileTree.present, FileTree.read]
  cases hstat : w.files.stat (Path.ofString p) with
  | error fault =>
    cases fault with
    | nameTooLong => exact .fail ⟨.tooLong hstat, rfl⟩
    | _ => exact .note_bind (.fail ⟨.missing hstat (by decide), rfl⟩)
  | ok e =>
    refine .when_note fun w' => ?_
    cases e with
    | directory => exact leads_refuse _ ⟨.directory hstat, rfl⟩
    | file bytes =>
      dsimp only
      cases hdecode : Text.decode bytes with
      | error fault => exact leads_refuse _ ⟨.undecodable hstat hdecode, rfl⟩
      | ok s =>
        rw [Text.decode_eq_ok_iff.mp hdecode] at hstat
        exact .note_bind (.pure ⟨.text hstat, rfl⟩)

/-! ## Addresses -/

/-- How fetching from an address ends, with the requests that are sent, whatever the answer is. -/
inductive UrlEnds (url : String) (timeout : Json) (response : Response) :
    Except Failure String → List Request → Prop
  | malformed : Url.verdict url = .malformed →
    UrlEnds url timeout response (.error (.misuse .wrongValue)) []
  | incomplete : Url.verdict url = .incomplete →
    UrlEnds url timeout response (.error (.load (.invalidUrl url))) []
  | text {status : Int} {contentType : Option String} {text : String} :
    Url.verdict url = .usable → response = .answer status contentType text → status < 400 →
    UrlEnds url timeout response (.ok text) [⟨url, timeout⟩]
  | status {status : Int} {contentType : Option String} {text : String} :
    Url.verdict url = .usable → response = .answer status contentType text → 400 ≤ status →
    UrlEnds url timeout response (.error (.load (.status status url))) [⟨url, timeout⟩]
  | timeout : Url.verdict url = .usable → response = .timeout →
    UrlEnds url timeout response (.error (.load (.timedOut url))) [⟨url, timeout⟩]
  | noConnection {cause : String} : Url.verdict url = .usable → response = .noConnection cause →
    UrlEnds url timeout response (.error (.load (.noConnection url))) [⟨url, timeout⟩]
  | otherFailure {cause : String} : Url.verdict url = .usable → response = .otherFailure cause →
    UrlEnds url timeout response (.error (.load (.request url cause))) [⟨url, timeout⟩]

theorem leads_receive {url : String} (timeout : Json) (w : World)
    (hurl : Url.verdict url = .usable) :
    (receive url timeout).Leads w (UrlEnds url timeout w.response) := by
  unfold receive
  refine .request_bind ?_
  rcases hresponse : w.response with ⟨status, contentType, text⟩ | _ | cause | cause
  · dsimp only
    split
    · next hstatus => exact leads_refuse _ (.status hurl rfl hstatus)
    · next hstatus =>
      exact .when_note fun w' => .note_bind (.pure (.text hurl rfl (not_le.mp hstatus)))
  · exact leads_refuse _ (.timeout hurl rfl)
  · exact leads_refuse _ (.noConnection hurl rfl)
  · exact leads_refuse _ (.otherFailure hurl rfl)

theorem leads_fromUrl (url : String) (timeout : Json) (w : World) :
    (fromUrl (.text url) timeout).Leads w (UrlEnds url timeout w.response) := by
  unfold fromUrl
  refine .note_bind ?_
  rw [Json.text?_text]
  dsimp only
  cases hverdict : Url.verdict url with
  | malformed => exact .fail (.malformed hverdict)
  | incomplete => exact leads_refuse _ (.incomplete hverdict)
  | usable => exact leads_receive timeout _ hverdict

/-! ## Sources -/

open CommandLine (given? jsonOf given?_eq_some isGiven_jsonOf)

variable {file url : Option String} {timeout : Json} {w : World} {outcome : Except Failure String}
  {sent : List Request}

/-- How fetching ends, with the requests that are sent: an empty text names no source. -/
inductive FetchEnds (file url : Option String) (timeout : Json) (w : World) :
    Except Failure String → List Request → Prop
  | noSource : given? file = none → given? url = none →
    FetchEnds file url timeout w (.error (.load .noSource)) []
  | twoSources {p u : String} : given? file = some p → given? url = some u →
    FetchEnds file url timeout w (.error (.load .twoSources)) []
  | file {p : String} {outcome : Except Failure String} : given? file = some p →
    given? url = none → FileEnds w.files (Path.ofString p) outcome →
    FetchEnds file url timeout w outcome []
  | url {u : String} {outcome : Except Failure String} {sent : List Request} :
    given? file = none → given? url = some u → UrlEnds u timeout w.response outcome sent →
    FetchEnds file url timeout w outcome sent

theorem fetch_eq (file url : Option String) (timeout : Json) :
    fetch (jsonOf file) (jsonOf url) timeout = match given? file, given? url with
      | none, none => Run.fail (.load .noSource)
      | some p, none => fromFile (.text p)
      | none, some u => fromUrl (.text u) timeout
      | some _, some _ => Run.fail (.load .twoSources) := by
  have hnamed : ∀ {value : Option String} {s : String}, given? value = some s →
      jsonOf value = .text s := by
    intro value s h
    rw [(given?_eq_some.mp h).1]
    rfl
  unfold fetch
  rw [isGiven_jsonOf, isGiven_jsonOf]
  cases hfile : given? file with
  | none =>
    cases hurl : given? url with
    | none => rfl
    | some u =>
      rw [hnamed hurl]
      rfl
  | some p =>
    cases hurl : given? url with
    | none =>
      rw [hnamed hfile]
      rfl
    | some u => rfl

theorem leads_fetch (file url : Option String) (timeout : Json) (w : World) :
    (fetch (jsonOf file) (jsonOf url) timeout).Leads w (FetchEnds file url timeout w) := by
  rw [fetch_eq]
  cases hfile : given? file with
  | none =>
    cases hurl : given? url with
    | none => exact .fail (.noSource hfile hurl)
    | some u => exact (leads_fromUrl u timeout w).mono fun _ _ => .url hfile hurl
  | some p =>
    cases hurl : given? url with
    | none =>
      refine (leads_fromFile p w).mono ?_
      rintro outcome _ ⟨hends, rfl⟩
      exact .file hfile hurl hends
    | some u => exact .fail (.twoSources hfile hurl)

/-- The requests that a source leads to: one for a usable address that is the only source. -/
def requestsFor (file url : Option String) (timeout : Json) : List Request :=
  match given? file, given? url with
  | none, some u => if Url.verdict u = .usable then [⟨u, timeout⟩] else []
  | _, _ => []

theorem FetchEnds.sent_eq (h : FetchEnds file url timeout w outcome sent) :
    sent = requestsFor file url timeout := by
  unfold requestsFor
  cases h with
  | noSource hfile hurl => rw [hfile, hurl]
  | twoSources hfile hurl => rw [hfile, hurl]
  | file hfile hurl _ => rw [hfile, hurl]
  | url hfile hurl hends =>
    rw [hfile, hurl]
    cases hends with
    | malformed h => exact (if_neg (by rw [h]; decide)).symm
    | incomplete h => exact (if_neg (by rw [h]; decide)).symm
    | text h => exact (if_pos h).symm
    | status h => exact (if_pos h).symm
    | timeout h => exact (if_pos h).symm
    | noConnection h => exact (if_pos h).symm
    | otherFailure h => exact (if_pos h).symm

/-- A text, the error of loading, or that a path is missing where nothing is at it. -/
def Documented (file : Option String) (w : World) (outcome : Except Failure String) : Prop :=
  (∃ text, outcome = .ok text) ∨ ∃ e, outcome = .error e ∧ (e.kind = "SchemaLoaderError" ∨
    e.kind = "FileNotFoundError" ∧ ∃ p, given? file = some p ∧
      w.files.present (Path.ofString p) = .ok false)

/-- The only source is a path that is too long to be asked about. -/
def AsksTooLong (file url : Option String) (w : World) : Prop :=
  ∃ p, given? file = some p ∧ given? url = none ∧
    w.files.stat (Path.ofString p) = .error .nameTooLong

/-- The only source is an address about which nothing is found out. -/
def AsksMalformed (file url : Option String) : Prop :=
  ∃ u, given? file = none ∧ given? url = some u ∧ Url.verdict u = .malformed

theorem not_documented (kind : String) {e : Failure} (hkind : e.kind = kind)
    (hother : kind ∉ ["SchemaLoaderError", "FileNotFoundError"]) :
    ¬Documented file w (.error e) := by
  rintro (⟨text, h⟩ | ⟨e', h, hload | ⟨hmissing, _⟩⟩)
  · cases h
  · cases h
    rw [← hkind, hload] at hother
    exact hother List.mem_cons_self
  · cases h
    rw [← hkind, hmissing] at hother
    exact hother (List.mem_cons_of_mem _ List.mem_cons_self)

theorem documented_load (e : LoadError) : Documented file w (.error (.load e)) :=
  Or.inr ⟨_, rfl, Or.inl rfl⟩

/-- Of a path it is known how fetching ends unless it is too long. -/
theorem FileEnds.documented_iff {p : String} (hfile : given? file = some p)
    (h : FileEnds w.files (Path.ofString p) outcome) :
    Documented file w outcome ↔ w.files.stat (Path.ofString p) ≠ .error .nameTooLong := by
  cases h with
  | text hstat => exact iff_of_true (Or.inl ⟨_, rfl⟩) (by rw [hstat]; nofun)
  | undecodable hstat _ => exact iff_of_true (documented_load _) (by rw [hstat]; nofun)
  | directory hstat => exact iff_of_true (documented_load _) (by rw [hstat]; nofun)
  | @missing fault hstat hshort =>
    have hpresent : w.files.present (Path.ofString p) = .ok false := by
      rw [FileTree.present, hstat]
      cases fault <;> first | rfl | exact absurd rfl hshort
    refine iff_of_true (Or.inr ⟨_, rfl, Or.inr ⟨rfl, p, hfile, hpresent⟩⟩) ?_
    rw [hstat]
    exact fun heq => hshort (Except.error.inj heq)
  | tooLong hstat =>
    exact iff_of_false (not_documented "OSError" rfl (by decide)) fun hne => hne hstat

/-- Of an address it is known how fetching ends unless nothing is found out about it. -/
theorem UrlEnds.documented_iff {u : String} (h : UrlEnds u timeout w.response outcome sent) :
    Documented file w outcome ↔ Url.verdict u ≠ .malformed := by
  cases h with
  | malformed hverdict =>
    exact iff_of_false (not_documented "ValueError" rfl (by decide)) fun hne => hne hverdict
  | incomplete hverdict => exact iff_of_true (documented_load _) (by rw [hverdict]; decide)
  | text hverdict => exact iff_of_true (Or.inl ⟨_, rfl⟩) (by rw [hverdict]; decide)
  | status hverdict => exact iff_of_true (documented_load _) (by rw [hverdict]; decide)
  | timeout hverdict => exact iff_of_true (documented_load _) (by rw [hverdict]; decide)
  | noConnection hverdict => exact iff_of_true (documented_load _) (by rw [hverdict]; decide)
  | otherFailure hverdict => exact iff_of_true (documented_load _) (by rw [hverdict]; decide)

theorem FetchEnds.documented_iff (h : FetchEnds file url timeout w outcome sent) :
    Documented file w outcome ↔ ¬AsksTooLong file url w ∧ ¬AsksMalformed file url := by
  unfold AsksTooLong AsksMalformed
  cases h with
  | noSource hfile hurl =>
    rw [hfile, hurl]
    exact iff_of_true (documented_load _) ⟨by simp, by simp⟩
  | twoSources hfile hurl =>
    rw [hfile, hurl]
    exact iff_of_true (documented_load _) ⟨by simp, by simp⟩
  | file hfile hurl hends =>
    rw [hends.documented_iff hfile, hfile, hurl]
    simp
  | url hfile hurl hends =>
    rw [hends.documented_iff, hfile, hurl]
    simp

end Loading
end EventCodegen
