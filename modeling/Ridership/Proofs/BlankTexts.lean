import Mathlib.Data.List.TakeWhile
import Ridership.Proofs.LineReference
import Ridership.Proofs.ScannerCalls
import Ridership.Proofs.TextEnd

/-!
# What is let pass without a value

A scanner asks three times what a blank is. A text has begun with the first
byte that is no blank of ASCII; the blanks in front of a token are those of
JSON; and nothing at all is looked at before three bytes are there. At its
end a text that has not begun is let pass.

The first two disagree about one byte, the form feed, and only the third can
hide it. Three bytes of blanks with a form feed among them are refused
before the end comes; one or two of them never meet the second question and
are let pass as if nothing were there. Any other text that is let pass has a
value.
-/

namespace Ridership.Json

/-- A blank of a JSON text. -/
def IsTextBlank (b : UInt8) : Prop :=
  b = 0x20 ∨ b = 0x09 ∨ b = 0x0A ∨ b = 0x0D

instance (b : UInt8) : Decidable (IsTextBlank b) :=
  inferInstanceAs (Decidable (_ ∨ _))

/-- A text that is let pass though it has no value: only blanks, or too few
bytes to begin with, each of them a blank or a form feed. -/
def LetPass (body : List UInt8) : Prop :=
  (∀ b ∈ body, IsTextBlank b) ∨
    body.length < 3 ∧ ∀ b ∈ body, isBlank b = true

instance (body : List UInt8) : Decidable (LetPass body) :=
  inferInstanceAs (Decidable (_ ∨ _))

theorem isBlank_iff {b : UInt8} :
    isBlank b = true ↔ IsTextBlank b ∨ b = 0x0C := by
  simp only [isBlank, IsTextBlank, Bool.or_eq_true, decide_eq_true_eq]
  grind

theorem LetPass.blank {body : List UInt8} (h : LetPass body) :
    ∀ b ∈ body, isBlank b = true := by
  rcases h with h | ⟨-, h⟩
  · exact fun b hb => isBlank_iff.mpr (.inl (h b hb))
  · exact h

theorem behindBlanks_eq_nil {body : List UInt8} :
    behindBlanks body = [] ↔ ∀ b ∈ body, IsTextBlank b := by
  simp [behindBlanks, IsTextBlank, List.dropWhile_eq_nil_iff, or_assoc]

theorem mem_of_behindBlanks {b : UInt8} {body rest : List UInt8}
    (h : behindBlanks body = b :: rest) : b ∈ body ∧ ¬ IsTextBlank b := by
  have hsuffix : behindBlanks body <:+ body := List.dropWhile_suffix _
  refine ⟨hsuffix.subset (h ▸ List.mem_cons_self), ?_⟩
  have hhead := List.head?_dropWhile_not
    (fun b => b = 0x20 || b = 0x09 || b = 0x0A || b = 0x0D) body
  rw [← behindBlanks, h] at hhead
  simpa [IsTextBlank, and_assoc] using hhead

/-! ## The first step -/

theorem Scanner.settled_suffix {s : Scanner} {b : UInt8} {rest : List UInt8}
    (h : s.settled.pending = b :: rest) : b ∈ s.pending := by
  obtain ⟨taken, hpending, -⟩ := s.open_passes.trans (s.open.skip_passes false)
  have hsettled : s.pending = taken ++ s.settled.pending := hpending
  rw [hsettled, h]
  exact List.mem_append_right _ List.mem_cons_self

theorem Scanner.next_of_textBlanks {s : Scanner} (hdue : s.due = none)
    (h : ∀ b ∈ s.pending, IsTextBlank b) :
    ∃ s', s.next false = (.idle, s') := by
  rcases next_cases hdue with ⟨-, hn⟩ | ⟨-, ⟨-, hn⟩ | ⟨b, rest, hp, hr, -⟩⟩
  · exact ⟨_, hn⟩
  · exact ⟨_, hn⟩
  · -- The one blank that may be left is a return, and that waits.
    obtain ⟨hs, hl, -⟩ := skipBlanks_head hp
    have hblank : IsTextBlank b := h b (settled_suffix hp)
    obtain rfl : b = 0x0D := by
      rw [IsTextBlank] at hblank
      grind
    exact absurd rfl hr

/-- A form feed among blanks is looked at as soon as three bytes are there. -/
theorem Scanner.next_of_formFeed {body : List UInt8}
    (hblank : ∀ b ∈ body, isBlank b = true) (hlen : 3 ≤ body.length)
    (hfeed : ¬ ∀ b ∈ body, IsTextBlank b) :
    ∃ f s, (Scanner.start.receive body).next false = (.fault f, s) := by
  have hdue : (Scanner.start.receive body).due = none := rfl
  have hmark : body.take 3 ≠ byteOrderMark := by
    intro hmark
    have hmem : (0xEF : UInt8) ∈ body.take 3 := by
      rw [hmark]
      exact List.mem_cons_self
    exact absurd (hblank _ (List.mem_of_mem_take hmem)) (by decide)
  have hopen : (Scanner.start.receive body).open.pending = body := by
    have hstart := start_receive_open body
    rw [behindMark, if_neg hmark] at hstart
    exact hstart.pending
  obtain ⟨b, rest, hb⟩ := List.exists_cons_of_ne_nil
    (fun hnil => hfeed (behindBlanks_eq_nil.mp hnil))
  obtain ⟨hmem, htext⟩ := mem_of_behindBlanks hb
  obtain rfl : b = 0x0C := (isBlank_iff.mp (hblank b hmem)).resolve_left htext
  have hsettled : (Scanner.start.receive body).settled.pending
      = 0x0C :: rest := by
    rw [settled, skip, hopen]
    dsimp only
    rw [skipBlanks_eq (.inr (by rw [hb]; exact List.cons_ne_nil _ _)), hb]
  rcases next_cases hdue with ⟨⟨-, hshort⟩, -⟩ | ⟨-, ⟨hr, -⟩ | ⟨-, -, -, -, hn⟩⟩
  · exact absurd hshort (Nat.not_lt_of_le hlen)
  · exact absurd (hr _ _ hsettled) Lexeme.noConfusion
  · rw [hn, token, hsettled]
    exact ⟨_, _, rfl⟩

/-! ## Whole texts -/

theorem Tree.events_ne_nil (t : Tree) (depth : Nat) : t.events depth ≠ [] := by
  cases t with
  | null | bool | number | string => exact List.cons_ne_nil _ _
  | array | object => exact List.cons_ne_nil _ _

/-- The end of a text of blanks settles nothing. -/
theorem Scanner.transcript_of_blank {body : List UInt8}
    (h : ∀ b ∈ body, isBlank b = true) :
    transcript [body]
      = ((Scanner.start.feed record id body []).1,
        (Scanner.start.feed record id body []).2.1) := by
  have hstarted : (Scanner.start.receive body).started = false := by
    simpa [receive, start] using h
  rw [transcript, scan_cons]
  rcases hfeed : Scanner.start.feed record id body [] with ⟨_ | _, told, s⟩
  · rfl
  · rw [feed_eq] at hfeed
    have hs : s.started = false := (drain_started hfeed).trans hstarted
    simp [scan, feedAll, finish, hs]

theorem LetPass.transcript {body : List UInt8} (h : LetPass body) :
    Scanner.transcript [body] = (.ok (), []) := by
  obtain ⟨s, hs⟩ : ∃ s,
      (Scanner.start.receive body).next false = (.idle, s) := by
    rcases h with h | ⟨hlen, -⟩
    · exact Scanner.next_of_textBlanks rfl h
    · exact ⟨_, Scanner.next_of_short hlen⟩
  rw [Scanner.transcript_of_blank h.blank, Scanner.feed_eq,
    Scanner.drain_of_idle hs]

/-- A text without a fault is let pass, or it has a value that was told. -/
theorem Scanner.letPass_or_tree {body : List UInt8}
    (h : (transcript [body]).1 = .ok ()) :
    LetPass body ∨ ∃ tree, Tree.ofText? body = some tree ∧
      (transcript [body]).2 = tree.events 0 := by
  by_cases hblank : ∀ b ∈ body, isBlank b = true
  · left
    by_cases htext : ∀ b ∈ body, IsTextBlank b
    · exact .inl htext
    · refine .inr ⟨Nat.lt_of_not_le fun hlen => ?_, hblank⟩
      obtain ⟨f, s, hfault⟩ := next_of_formFeed hblank hlen htext
      rw [transcript_of_blank hblank, feed_eq, drain_of_fault hfault] at h
      cases h
  · right
    refine Accepts.tree ⟨h, ?_⟩
    simpa using hblank

/-- What is told of a text that is let pass is nothing, and of no other text
without a fault. -/
theorem Scanner.transcript_eq_nil_iff (parts : List (List UInt8)) :
    transcript parts = (.ok (), []) ↔ LetPass parts.flatten := by
  have hcut : transcript parts = transcript [parts.flatten] :=
    transcript_eq_of_flatten_eq (by simp)
  rw [hcut]
  refine ⟨fun h => ?_, LetPass.transcript⟩
  rcases letPass_or_tree (congrArg Prod.fst h) with hpass | ⟨tree, -, hevents⟩
  · exact hpass
  · rw [h] at hevents
    exact absurd hevents.symm (tree.events_ne_nil 0)

end Ridership.Json

namespace Ridership.Forecast

open Json (LetPass Scanner Tree)
open Log (Line)
open Storage (ByteSource)

/-! ## Lines -/

/-- What is taken of a body is what its text comes to and what the assembler
makes of it. -/
theorem LineState.takeBody_cases (body : List UInt8) :
    ((takeBody none body).1 = .ok () →
      (Scanner.transcript [body]).1 = .ok ()) ∧
    (∀ error, (takeBody none body).1 = .error error →
      ∃ place message, error = .malformedRecord place message) ∧
    ∃ outcomes : List Outcome,
      (takeBody none body).2.reports = outcomes.map Report.outcome := by
  obtain ⟨result, told, hrecord, hears⟩ := Scanner.scan_hears (see 0)
    ForecastError.ofScan Scanner.start [] [body]
  obtain ⟨hend, hreports⟩ := hear_see 0 start told
  rw [takeBody_eq_scan, hears, Scanner.transcript, hrecord]
  rw [← List.map_reverse] at hreports
  have hreports := hreports.trans (List.append_nil _)
  rcases hheard : Scanner.hear (see 0) start told with ⟨error | ⟨⟩, x⟩
  · rw [hheard] at hend hreports
    rw [Scanner.hearTo_of_error hheard]
    refine ⟨fun h => absurd h (by simp), ?_, _, hreports⟩
    rintro _ ⟨⟩
    obtain ⟨message, -, herror⟩ := Assembler.acceptAll_error hend.symm
    exact ⟨0, message, herror⟩
  · rw [hheard] at hreports
    rw [Scanner.hearTo_of_ok hheard]
    refine ⟨fun h => ?_, ?_, _, hreports⟩
    · cases result with
      | error fault => cases h
      | ok => rfl
    · cases result with
      | error fault =>
          rintro _ ⟨⟩
          exact ⟨_, _, rfl⟩
      | ok => exact fun _ h => absurd h (by simp [Except.mapError])

/-- What there is to say of a body by whether it has a value: what is reported
of it, and how its reading ends. -/
structure BlankOrValue (body : List UInt8) (reports : List Report)
    (result : Except ForecastError Unit) : Prop where
  passed : LetPass body → result = .ok () ∧ withoutProgress reports = [.done]
  done : .done ∈ reports →
    LetPass body ∨ ∃ tree, Tree.ofText? body = some tree
  garbage : ¬ LetPass body → Tree.ofText? body = none →
    .done ∉ reports ∧
      ∃ place message, result = .error (.malformedRecord place message)

theorem mem_withoutProgress {report : Report} {reports : List Report}
    (h : report.isProgress = false) :
    report ∈ withoutProgress reports ↔ report ∈ reports := by
  rw [withoutProgress, List.mem_filter]
  simp [h]

theorem BlankOrValue.of_takeBody {body : List UInt8} {reports : List Report}
    {result : Except ForecastError Unit}
    (hresult : result.mapError ForecastError.placeless
      = (LineState.takeBody none body).1)
    (hreports : withoutProgress reports
      = (LineState.takeBody none body).2.reports.reverse
        ++ closing (LineState.takeBody none body).1) :
    BlankOrValue body reports result := by
  obtain ⟨hok, herror, outcomes, houtcomes⟩ := LineState.takeBody_cases body
  have hdone : .done ∈ reports → (LineState.takeBody none body).1 = .ok () := by
    intro h
    rw [← mem_withoutProgress rfl, hreports, houtcomes] at h
    rcases htaken : (LineState.takeBody none body).1 with error | ⟨⟩
    · rw [htaken] at h
      simp [closing] at h
    · rfl
  have hvalue : (LineState.takeBody none body).1 = .ok () →
      LetPass body ∨ ∃ tree, Tree.ofText? body = some tree := by
    intro h
    rcases Scanner.letPass_or_tree (hok h) with hpass | ⟨tree, htree, -⟩
    · exact .inl hpass
    · exact .inr ⟨tree, htree⟩
  refine ⟨fun hpass => ?_, fun h => hvalue (hdone h), fun hpass htree => ?_⟩
  · have htaken : LineState.takeBody none body = (.ok (), .start) := by
      rw [LineState.takeBody_eq_scan, Scanner.scan_of_transcript
        (congrArg Prod.fst hpass.transcript), hpass.transcript]
      rfl
    rw [htaken] at hresult hreports
    exact ⟨ForecastError.ok_of_placeless hresult, hreports⟩
  · have hneither :
        ¬ (LetPass body ∨ ∃ tree, Tree.ofText? body = some tree) := by
      rintro (h | ⟨tree, h⟩)
      · exact hpass h
      · rw [htree] at h
        cases h
    refine ⟨fun h => hneither (hvalue (hdone h)), ?_⟩
    rcases htaken : (LineState.takeBody none body).1 with error | ⟨⟩
    · obtain ⟨place, message, rfl⟩ := herror error htaken
      rw [htaken] at hresult
      exact ⟨_, message, (ForecastError.error_of_placeless hresult).choose_spec⟩
    · exact absurd (hvalue htaken) hneither

/-- A text that has no fault, in whatever parts it arrives, either has a value,
and that was told, or is one of those that are let pass, and then nothing was
told. So a line is reported done only if it has a value or is let pass, and any
other is malformed: in whatever pieces it is read, and from whatever source. -/
theorem blank_or_value (parts : List (List UInt8)) :
    (Scanner.transcript parts = (.ok (), []) ↔ LetPass parts.flatten) ∧
    ((Scanner.transcript parts).1 = .ok () → ¬ LetPass parts.flatten →
      ∃ tree, Tree.ofText? parts.flatten = some tree ∧
        (Scanner.transcript parts).2 = tree.events 0) ∧
    (∀ size step : Nat,
      let read := BodyState.start.readAll size step (parts.map .bytes)
      BlankOrValue parts.flatten read.2.line.reports.reverse read.1) ∧
    (∀ (source : ByteSource) (settings : Settings) (line : Line),
      source.slice line.start line.stop = .ok ⟨parts.flatten, none⟩ →
        let read := readLine source settings line
        BlankOrValue parts.flatten read.1 read.2) := by
  refine ⟨Scanner.transcript_eq_nil_iff parts, fun h hpass => ?_,
    fun size step => ?_, fun source settings line hslice => ?_⟩
  · have hcut : Scanner.transcript parts = Scanner.transcript [parts.flatten] :=
      Scanner.transcript_eq_of_flatten_eq (by simp)
    rw [hcut] at h ⊢
    exact (Scanner.letPass_or_tree h).resolve_left hpass
  · obtain ⟨hresult, hreports⟩ := BodyState.readAll_whole size step parts
    refine .of_takeBody hresult ?_
    rw [withoutProgress, List.filter_reverse, ← withoutProgress, hreports,
      List.reverse_append, closing_reverse]
  · obtain ⟨hresult, hreports⟩ := readLine_eq_takeBody hslice settings
    exact .of_takeBody hresult hreports

/-- A number between blanks has a value; three form feeds are malformed. -/
theorem blank_or_value_of_number :
    ((Scanner.transcript [[0x20, 0x31], [0x0D]]).1 = .ok () ∧
      ¬ LetPass [0x20, 0x31, 0x0D] ∧
      ∃ tree, Tree.ofText? [0x20, 0x31, 0x0D] = some tree ∧
        (Scanner.transcript [[0x20, 0x31], [0x0D]]).2 = tree.events 0) ∧
    ¬ LetPass [0x0C, 0x0C, 0x0C] ∧ Tree.ofText? [0x0C, 0x0C, 0x0C] = none ∧
    let read := readLine (.memory [0x0C, 0x0C, 0x0C]) .default (.between 0 3)
    .done ∉ read.1 ∧
      ∃ place message, read.2 = .error (.malformedRecord place message) := by
  obtain ⟨-, hvalue, -⟩ := blank_or_value [[0x20, 0x31], [0x0D]]
  obtain ⟨-, -, -, hline⟩ := blank_or_value [[0x0C, 0x0C, 0x0C]]
  have hok : (Scanner.transcript [[0x20, 0x31], [0x0D]]).1 = .ok () := by
    decide +kernel
  have hnumber : ¬ LetPass [0x20, 0x31, 0x0D] := by decide
  have hfeeds : ¬ LetPass [0x0C, 0x0C, 0x0C] := by decide
  have hnone : Tree.ofText? [0x0C, 0x0C, 0x0C] = none := by decide +kernel
  have hread := hline _ .default (.between 0 3)
    (memory_slice_whole [0x0C, 0x0C, 0x0C])
  exact ⟨⟨hok, hnumber, hvalue hok hnumber⟩, hfeeds, hnone,
    hread.garbage hfeeds hnone⟩

/-- A form feed alone is no blank of JSON and has no value, but it
is let pass. -/
theorem formFeed_passes :
    ¬ (∀ b ∈ [0x0C], Json.IsTextBlank b) ∧ Tree.ofText? [0x0C] = none ∧
    (Scanner.transcript [[0x0C]]).1 = .ok () ∧
    let read := readLine (.memory [0x0C]) .default (.between 0 1)
    read.2 = .ok () ∧ .done ∈ read.1 := by
  have hpass : LetPass [0x0C] := .inr ⟨by decide, by simp [Json.isBlank]⟩
  obtain ⟨hresult, hreports⟩ := @readLine_eq_takeBody _ (.between 0 1) _
    (memory_slice_whole [0x0C]) .default
  obtain ⟨hok, hdone⟩ :=
    (BlankOrValue.of_takeBody hresult hreports).passed hpass
  refine ⟨by decide, by decide +kernel, congrArg Prod.fst hpass.transcript,
    hok, ?_⟩
  rw [← mem_withoutProgress rfl, hdone]
  exact List.mem_singleton.mpr rfl

end Ridership.Forecast
