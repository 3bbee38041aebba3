import Mathlib.Data.List.Chain
import Ridership.Log.SnapshotTime
import Ridership.Proofs.CutTexts

/-!
# The time of a snapshot is told by a whole number or not at all

The search for the time of a snapshot is a fold over the events that the first
bytes of a line tell. It waits for one event behind each key of the right name,
and keeps what that event told until the next one. So what it comes to is told
by the last pair of such a key and the event behind it (`snapshotTime_eq`).

A key behind a key would be an exception, for the search lets go of a key where
another comes, and keeps the time it had. There is none. Behind a key the
grammar stands at a colon or at a value (`Grammar.InMember`), and no key comes
there before the value has come, or something is wrong and the events are at
their end.

Cut off anywhere, a line tells the first of its events (`told_lossy_take`), and
so the first of its pairs. A number is only told once a byte behind it has
shown where it ends, and so a time is never read from a part of one.
-/

namespace Ridership.Json

/-! ## Behind a key comes no key -/

/-- The innermost container waits for the value of a member. -/
def Grammar.InMember (g : Grammar) : Prop :=
  g.frames.head? = some .colon ∨ g.frames.head? = some .memberValue

section

variable {g g' : Grammar} {t : Token}

/-- What comes as a value is told, and is no key, or is out of place. -/
theorem Grammar.value_told_no_key : (g.value t).2 ≠ .silent ∧
    ∀ name, (g.value t).2 ≠ .signal (.event (.key name)) := by
  cases t with
  | openObject | openArray =>
      simp only [value, enter]
      split <;> simp
  | _ => simp [value]

theorem Grammar.accept_key {name : String}
    (h : g.accept t = (g', .signal (.event (.key name)))) :
    ¬g.InMember ∧ g'.InMember := by
  have hvalue (g₁ : Grammar) :
      g₁.value t ≠ (g', .signal (.event (.key name))) := fun heq =>
    value_told_no_key.2 name (congrArg Prod.snd heq)
  have hkey (g₁ : Grammar)
      (heq : g₁.key t = (g', .signal (.event (.key name)))) :
      g'.InMember := by
    cases t <;> cases heq
    exact .inl rfl
  -- Two frames ask for a key, and neither is that of a member under way.
  unfold accept at h
  split at h
  case h_1 =>
      split at h
      · split at h <;> cases h
      · exact absurd h (hvalue _)
  case h_2 hframes | h_3 hframes =>
      refine ⟨by simp [InMember, hframes], ?_⟩
      split at h
      · cases h
      · exact hkey g h
  case h_4 =>
      split at h
      · cases h
      · cases h
  case h_5 => exact absurd h (hvalue _)
  case h_6 => split at h <;> cases h
  case h_7 | h_8 =>
      split at h
      · cases h
      · exact absurd h (hvalue _)
  case h_9 => split at h <;> cases h

theorem Grammar.accept_silent (hg : g.InMember)
    (h : g.accept t = (g', .silent)) : g'.InMember := by
  unfold accept at h
  split at h
  case h_1 hframes | h_2 hframes | h_3 hframes | h_6 hframes | h_7 hframes
      | h_8 hframes | h_9 hframes =>
      simp [InMember, hframes] at hg
  case h_4 =>
      split at h
      · cases h
        exact .inr rfl
      · cases h
  case h_5 => exact absurd (congrArg Prod.snd h) value_told_no_key.1

end

/-- What a step comes to is what the grammar came to on its token. -/
def Step.reaction : Step → Reaction
  | .event e _ => .signal (.event e)
  | _ => .silent

theorem Scanner.settled_grammar (s : Scanner) :
    s.settled.grammar = s.grammar := by
  show s.open.grammar = s.grammar
  unfold Scanner.open
  split
  · dsimp only
    split <;> rfl
  · rfl

theorem Scanner.accepts_of_next {s s' : Scanner} {step : Step}
    (hd : s.due = none) (h : s.next false = (step, s'))
    (hgoes : step.goesOn) :
    s'.due = none ∧ ∃ t, s.grammar.accept t = (s'.grammar, step.reaction) := by
  have hsd : s.settled.due = none := s.settled_due.trans hd
  rcases next_cases hd with ⟨-, hn⟩ | ⟨-, ⟨-, hn⟩ | ⟨b, rest, hp, hr, hn⟩⟩
  · obtain ⟨rfl, -⟩ := Prod.mk.inj (h.symm.trans hn)
    cases hgoes
  · obtain ⟨rfl, -⟩ := Prod.mk.inj (h.symm.trans hn)
    cases hgoes
  · have hin := Token.read_within false b rest
    rw [h] at hn
    unfold token at hn
    rw [hp] at hn
    cases hread : Token.read false b rest with
    | unfinished => exact absurd hread hr
    | fault fault first last more =>
        simp only [hread] at hn
        obtain ⟨rfl, -⟩ := Prod.mk.inj hn
        cases hgoes
    | token t more =>
        simp only [hread] at hn
        rw [hread] at hin
        have hg : (s.settled.take more rest).grammar = s.grammar :=
          s.settled_grammar
        rcases react_cases (s := s.settled.take more rest) hin.1
          s.settled.position (more + 1) with
          ⟨g', e, ha, hreact⟩ | ⟨g', ha, hreact⟩ | ⟨g', _, _, f, _, ha, hreact⟩
        · obtain ⟨rfl, rfl⟩ := Prod.mk.inj (hn.trans hreact)
          exact ⟨hsd, t, hg ▸ ha⟩
        · obtain ⟨rfl, rfl⟩ := Prod.mk.inj (hn.trans hreact)
          exact ⟨hsd, t, hg ▸ ha⟩
        · obtain ⟨rfl, -⟩ := Prod.mk.inj (hn.trans hreact)
          cases hgoes

/-- Not both of two events are keys. -/
def Event.Apart (e e' : Event) : Prop :=
  ∀ name name', e = .key name → e' ≠ .key name'

/-- A run that has told some events: its grammar waits for a value if the last
of them was a key. -/
structure Scanner.Orderly (s : Scanner) (before : List (Event × Nat)) :
    Prop where
  due : s.due = none
  apart : (before.map Prod.fst).IsChain Event.Apart
  member : ∀ name, (before.map Prod.fst).getLast? = some (.key name) →
    s.grammar.InMember

theorem Scanner.Orderly.silent {s s' : Scanner} {before : List (Event × Nat)}
    (h : s.Orderly before) (hstep : s.next false = (.silent, s')) :
    s'.Orderly before := by
  obtain ⟨hd, t, ha⟩ := accepts_of_next h.due hstep rfl
  exact ⟨hd, h.apart, fun name hlast => Grammar.accept_silent
    (h.member name hlast) ha⟩

theorem Scanner.Orderly.event {s s' : Scanner} {before : List (Event × Nat)}
    {e : Event} {depth : Nat} (h : s.Orderly before)
    (hstep : s.next false = (.event e depth, s')) :
    s'.Orderly (before ++ [(e, depth)]) := by
  obtain ⟨hd, t, ha⟩ := accepts_of_next h.due hstep rfl
  refine ⟨hd, ?_, fun name hlast => ?_⟩
  · rw [List.map_append, List.isChain_append]
    refine ⟨h.apart, List.isChain_singleton _, ?_⟩
    intro last hlast e' he' name name' hname hname'
    obtain rfl : e = e' := by simpa using he'
    subst hname hname'
    exact (Grammar.accept_key ha).1 (h.member name hlast)
  · obtain rfl : e = .key name := by simpa using hlast
    exact (Grammar.accept_key ha).2

theorem Scanner.Orderly.drain {s : Scanner} {before : List (Event × Nat)}
    (h : s.Orderly before) :
    ((Scanner.drain record id false s before).2.1.map Prod.fst).IsChain
      Event.Apart := by
  fun_induction Scanner.drain record id false s before with
  | case1 => exact h.apart
  | case2 => exact h.apart
  | case3 s before t hstep ih => exact ih (h.silent hstep)
  | case4 s before e depth t hstep before' hlisten ih =>
      obtain rfl : before ++ [(e, depth)] = before' := congrArg Prod.snd hlisten
      exact ih (h.event hstep)
  | case5 s before e depth t hstep error before' hlisten =>
      exact absurd (congrArg Prod.fst hlisten) (by simp [record])

/-- No key is told right behind another. -/
theorem Scanner.told_apart (bytes : List UInt8) :
    ((told bytes).map Prod.fst).IsChain Event.Apart := by
  have hstart : (Scanner.start.receive bytes).Orderly [] :=
    ⟨rfl, .nil, fun name hlast => by cases hlast⟩
  exact hstart.drain

end Ridership.Json

namespace Ridership.Log

open Json (Event Scanner)
open Text.Utf8 (encode lossy)

/-! ## The pairs of a text -/

/-- The events of the first bytes of a line, read as text, before their end or
before the first thing wrong in them. -/
def leadEvents (lead : List UInt8) : List Event :=
  (Scanner.told (encode (lossy lead))).map Prod.fst

/-- The keys named `system_time` that another event follows, and those
events. -/
def timePairs (events : List Event) : List (Event × Event) :=
  (events.zip events.tail).filter fun pair =>
    pair.1 = .key "system_time"

/-- The time that an event tells behind its key. -/
def timeBehind : Event → Option Int
  | .number literal => seconds? literal
  | _ => none

theorem timePairs_cons (e e' : Event) (events : List Event) :
    timePairs (e :: e' :: events) =
      if e = .key "system_time" then (e, e') :: timePairs (e' :: events)
      else timePairs (e' :: events) := by
  simp only [timePairs, List.tail_cons, List.zip_cons_cons, List.filter_cons,
    decide_eq_true_eq]

theorem timePairs_prefix {events events' : List Event}
    (h : events <+: events') : timePairs events <+: timePairs events' := by
  obtain ⟨more, rfl⟩ := h
  induction events with
  | nil => exact List.nil_prefix
  | cons e events ih =>
      cases events with
      | nil => exact List.nil_prefix
      | cons e' events =>
          simp only [List.cons_append] at ih ⊢
          rw [timePairs_cons, timePairs_cons]
          split
          · exact List.cons_prefix_cons.mpr ⟨rfl, ih⟩
          · exact ih

/-! ## The search as a fold -/

theorem TimeSearch.see_awaiting (t : TimeSearch) (e : Event) :
    (t.see e).awaiting = decide (e = .key "system_time") := by
  cases hawaits : t.awaiting with
  | false => cases e <;> simp [see, hawaits]
  | true => cases e <;> simp [see, hawaits]

/-- Behind a key that is waited for the time is what the next event tells. -/
theorem TimeSearch.see_time {t : TimeSearch} {e : Event}
    (h : t.awaiting = true) (hkey : ∀ name, e ≠ .key name) :
    (t.see e).time = timeBehind e := by
  cases e with
  | key name => exact absurd rfl (hkey name)
  | number literal => simp [see, h, timeBehind]
  | _ => simp [see, h, timeBehind]

theorem TimeSearch.see_idle {t : TimeSearch} (h : t.awaiting = false)
    (e : Event) : (t.see e).time = t.time := by
  cases e <;> simp [see, h]

/-- From any state behind an event the time is that of the last pair to come, or
the one that was known. -/
theorem TimeSearch.foldl_see {t : TimeSearch} {e : Event}
    {events : List Event}
    (hawaits : t.awaiting = decide (e = .key "system_time"))
    (hapart : (e :: events).IsChain Event.Apart) :
    (events.foldl see t).time =
      match (timePairs (e :: events)).getLast? with
      | some pair => timeBehind pair.2
      | none => t.time := by
  induction events generalizing t e with
  | nil => rfl
  | cons e' events ih =>
      obtain ⟨he, hrest⟩ := List.isChain_cons_cons.mp hapart
      rw [List.foldl_cons, ih (t.see_awaiting e') hrest, timePairs_cons]
      by_cases hkey : e = .key "system_time"
      · have hnext : (t.see e').time = timeBehind e' :=
          see_time (by rw [hawaits]; simp [hkey])
            (fun name => he _ name hkey)
        -- This pair is the last one unless another is to come.
        rw [if_pos hkey, List.getLast?_cons, hnext]
        cases (timePairs (e' :: events)).getLast? <;> rfl
      · rw [if_neg hkey, see_idle (by rw [hawaits]; simp [hkey])]

/-- The listener of the search, which never refuses. -/
def TimeSearch.listen (t : TimeSearch) (e : Event) (_ : Nat) :
    Except Unit Unit × TimeSearch :=
  (.ok (), t.see e)

theorem TimeSearch.hear_listen (t : TimeSearch) (told : List (Event × Nat)) :
    Scanner.hear listen t told
      = (.ok (), (told.map Prod.fst).foldl see t) := by
  induction told generalizing t with
  | nil => rfl
  | cons first told ih => exact ih _

theorem snapshotTime_eq_foldl (lead : List UInt8) :
    snapshotTime lead
      = ((leadEvents lead).foldl TimeSearch.see .start).time := by
  obtain ⟨result, told, s, hrecord, hears⟩ :=
    Scanner.drain_hears TimeSearch.listen (fun _ => ()) false
      (Scanner.start.receive (encode (lossy lead))) []
  have htold : Scanner.told (encode (lossy lead)) = told := by
    rw [Scanner.told, Scanner.feed_eq, hrecord]
    rfl
  have hfeed := (hears .start).1 _ (TimeSearch.hear_listen .start told)
  rw [leadEvents, htold]
  exact congrArg (fun r => r.2.1.time) hfeed

/-- The time is what is told behind the last of the keys. -/
theorem snapshotTime_eq (lead : List UInt8) :
    snapshotTime lead =
      (timePairs (leadEvents lead)).getLast?.bind fun pair =>
        timeBehind pair.2 := by
  have hapart : (leadEvents lead).IsChain Event.Apart := Scanner.told_apart _
  rw [snapshotTime_eq_foldl]
  cases hevents : leadEvents lead with
  | nil => rfl
  | cons e events =>
      rw [hevents] at hapart
      rw [List.foldl_cons,
        TimeSearch.foldl_see (TimeSearch.see_awaiting _ e) hapart,
        TimeSearch.see_idle rfl]
      cases (timePairs (e :: events)).getLast? <;> rfl

theorem leadEvents_take (line : List UInt8) (n : Nat) :
    leadEvents (line.take n) <+: leadEvents line :=
  (Scanner.told_lossy_take line n).map Prod.fst

theorem mem_timePairs {events : List Event} {pair : Event × Event}
    (h : pair ∈ timePairs events) : pair.1 = .key "system_time" := by
  simpa using (List.mem_filter.mp h).2

/-- A time is unknown, or told by the number of one of the pairs. -/
theorem snapshotTime_cases (lead : List UInt8) :
    snapshotTime lead = none ∨
      ∃ literal, (.key "system_time", .number literal)
          ∈ timePairs (leadEvents lead) ∧
        snapshotTime lead = seconds? literal := by
  rw [snapshotTime_eq]
  cases hlast : (timePairs (leadEvents lead)).getLast? with
  | none => exact .inl rfl
  | some pair =>
      have hmem := List.mem_of_getLast? hlast
      obtain ⟨e, e'⟩ := pair
      obtain rfl : e = .key "system_time" := mem_timePairs hmem
      cases e' with
      | number literal => exact .inr ⟨literal, hmem, rfl⟩
      | _ => exact .inl rfl

/-- The time of a snapshot is what is told behind the last of its keys, among
the events that come before anything wrong. Wherever a line is cut off, the keys
of the first part, each with the event behind it, are the first of the line's.
So the time in the first part is unknown or that of a number that the line has,
and it is the time of the line if that has no other such key behind the cut. -/
theorem snapshotTime_cut (line : List UInt8) :
    snapshotTime line = (timePairs (leadEvents line)).getLast?.bind
      (fun pair => timeBehind pair.2) ∧
    ∀ n, timePairs (leadEvents (line.take n)) <+: timePairs (leadEvents line) ∧
      (snapshotTime (line.take n) = none ∨
        ∃ literal, (.key "system_time", .number literal)
            ∈ timePairs (leadEvents line) ∧
          snapshotTime (line.take n) = seconds? literal) ∧
      (timePairs (leadEvents (line.take n)) = timePairs (leadEvents line) →
        snapshotTime (line.take n) = snapshotTime line) := by
  refine ⟨snapshotTime_eq line, fun n => ?_⟩
  have hpairs := timePairs_prefix (leadEvents_take line n)
  refine ⟨hpairs, ?_, fun hsame => ?_⟩
  · rcases snapshotTime_cases (line.take n) with hnone | ⟨literal, hmem, htime⟩
    · exact .inl hnone
    · exact .inr ⟨literal, hpairs.subset hmem, htime⟩
  · rw [snapshotTime_eq, snapshotTime_eq, hsame]

/-- The line is cut inside the name of its second member. -/
theorem snapshotTime_cut_of_member :
    let line := encode "\x7b\"system_time\":17,\"day\":3\x7d"
    timePairs (leadEvents (line.take 20)) = timePairs (leadEvents line) ∧
      snapshotTime (line.take 20) = snapshotTime line := by
  intro line
  have hpairs : timePairs (leadEvents (line.take 20))
      = timePairs (leadEvents line) := by decide +kernel
  exact ⟨hpairs, ((snapshotTime_cut line).2 20).2.2 hpairs⟩

end Ridership.Log
