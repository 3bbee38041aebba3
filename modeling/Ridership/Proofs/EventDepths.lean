import Mathlib.Data.List.Basic
import Ridership.Proofs.ScannerCalls
import Ridership.Proofs.TextTree

/-!
# Depths are the true nesting

A scanner counts the open containers by what it tells, and its grammar keeps a
stack of frames. While nothing is wrong with a text the two go together, and in
the end both are at nothing. After a fault they may part: a container beyond the
limit is told and has no frame, and a frame may be given up without a word. Yet
the count is never below the stack (`Scanner.Nests`). A token that closes a
container takes a frame away, so there is one, and the count has something to
take away as well.

The fault is told first and the event behind it is due, so there is a time when
the frame of a container is there and the container is not told yet, or the
other way around. What is due is counted in (`dueOpening`, `dueClosing`).

Which opening an event closes is told by the events alone: the last one that is
not closed yet (`openAfter`), with balanced events behind it.
-/

namespace Ridership.Json

/-! ## Events that open and close -/

/-- Whether an event opens a container. -/
def Event.opens : Event → Bool
  | .startObject | .startArray => true
  | _ => false

/-- The event that opens what an event closes. -/
def Event.opener? : Event → Option Event
  | .endObject => some .startObject
  | .endArray => some .startArray
  | _ => none

/-- Whether an event closes a container. -/
def Event.closes (e : Event) : Bool :=
  e.opener?.isSome

/-- All that is opened is closed again, and nothing else. -/
inductive Balanced : List Event → Prop where
  | nil : Balanced []
  | plain {events : List Event} {e : Event} (h : Balanced events)
      (hopens : e.opens = false) (hcloses : e.closes = false) :
      Balanced (events ++ [e])
  | container {events inside : List Event} {o c : Event}
      (h : Balanced events) (hinside : Balanced inside) (hopens : o.opens)
      (hcloses : c.closes) : Balanced (events ++ o :: inside ++ [c])

/-- How many containers some events have opened. -/
def opened (told : List (Event × Nat)) : Nat :=
  told.countP fun p => p.1.opens

/-- How many containers some events have closed. -/
def closed (told : List (Event × Nat)) : Nat :=
  told.countP fun p => p.1.closes

/-- The opening events of what is open behind an event, innermost first. -/
def Event.onto (e : Event) (stack : List Event) : List Event :=
  if e.opens then e :: stack
  else if e.closes then stack.tail
  else stack

/-- What is open behind an event, innermost first. -/
def nest (stack : List (Event × Nat)) (p : Event × Nat) :
    List (Event × Nat) :=
  if p.1.opens then p :: stack
  else if p.1.closes then stack.tail
  else stack

/-- The openings that are not closed behind some events, innermost first. -/
def openAfter (told : List (Event × Nat)) : List (Event × Nat) :=
  told.foldl nest []

/-- The depths of so many containers, one inside the other. -/
def countdown : Nat → List Nat
  | 0 => []
  | n + 1 => (n + 1) :: countdown n

theorem Event.not_opens_of_closes {e : Event} (h : e.closes) :
    e.opens = false := by
  cases e with
  | endObject | endArray => rfl
  | _ => cases h

theorem Event.not_closes_of_opens {e : Event} (h : e.opens) :
    e.closes = false := by
  cases e with
  | startObject | startArray => rfl
  | _ => cases h

section

variable {told : List (Event × Nat)} {p : Event × Nat}

theorem opened_concat : opened (told ++ [p])
    = opened told + if p.1.opens then 1 else 0 := by
  simp [opened, List.countP_append, List.countP_singleton]

theorem closed_concat : closed (told ++ [p])
    = closed told + if p.1.closes then 1 else 0 := by
  simp [closed, List.countP_append, List.countP_singleton]

theorem openAfter_concat :
    openAfter (told ++ [p]) = nest (openAfter told) p := by
  simp [openAfter]

/-- An opening that is not closed has only balanced events behind it, but for
openings behind it that are not closed either. -/
theorem exists_opening {before rest : List (Event × Nat)} {p : Event × Nat}
    (h : openAfter before = p :: rest) :
    ∃ front inside, before = front ++ p :: inside ∧ p.1.opens ∧
      Balanced (inside.map Prod.fst) ∧ openAfter front = rest := by
  rcases List.eq_nil_or_concat' before with rfl | ⟨init, q, rfl⟩
  · cases h
  · rw [openAfter_concat, nest] at h
    split at h
    · next hopens =>
        obtain ⟨rfl, hrest⟩ := List.cons.inj h
        exact ⟨init, [], rfl, hopens, .nil, hrest⟩
    · next hopens =>
        split at h
        · next hcloses =>
            -- What the last event closes is inside, and so is all behind it.
            cases hinit : openAfter init with
            | nil => rw [hinit] at h; cases h
            | cons o stack =>
                rw [hinit, List.tail_cons] at h
                subst h
                obtain ⟨front₁, inside₁, hinit₁, ho, hbalanced₁, hfront₁⟩ :=
                  exists_opening hinit
                obtain ⟨front, inside, rfl, hp, hbalanced, hfront⟩ :=
                  exists_opening hfront₁
                refine ⟨front, inside ++ o :: inside₁ ++ [q], ?_, hp, ?_, hfront⟩
                · rw [hinit₁]
                  simp
                · rw [List.map_append, List.map_append, List.map_cons,
                    List.map_singleton]
                  exact hbalanced.container hbalanced₁ ho hcloses
        · next hcloses =>
            obtain ⟨front, inside, rfl, hp, hbalanced, hfront⟩ :=
              exists_opening h
            refine ⟨front, inside ++ [q], by simp, hp, ?_, hfront⟩
            rw [List.map_append, List.map_singleton]
            exact hbalanced.plain (Bool.eq_false_iff.mpr hopens)
              (Bool.eq_false_iff.mpr hcloses)
termination_by before.length
decreasing_by
  all_goals simp_all

/-- What is true of every event that was told, for those before it, is true of
those told so far and of the last. -/
theorem forall_told_concat {Q : List (Event × Nat) → Event × Nat → Prop}
    (h : ∀ before q after, told = before ++ q :: after → Q before q)
    (hp : Q told p) {before after : List (Event × Nat)} {q : Event × Nat}
    (heq : told ++ [p] = before ++ q :: after) : Q before q := by
  rcases List.eq_nil_or_concat' after with rfl | ⟨init, r, rfl⟩
  · obtain ⟨rfl, hq⟩ := List.append_inj' heq rfl
    obtain rfl := List.singleton_inj.mp hq
    exact hp
  · rw [← List.cons_append, ← List.append_assoc] at heq
    obtain ⟨htold, -⟩ := List.append_inj' heq rfl
    exact h before q init htold

end

/-! ## What a token does to the frames -/

/-- The event that has opened the container of a frame. -/
def Frame.opener : Frame → Event
  | .firstKey | .nextKey | .colon | .memberValue | .memberEnd => .startObject
  | .firstItem | .nextItem | .itemEnd => .startArray

/-- How many containers are opened by what is due. -/
def dueOpening : Option Signal → Nat
  | some (.event e) => if e.opens then 1 else 0
  | _ => 0

/-- How many containers are closed by what is due. -/
def dueClosing : Option Signal → Nat
  | some (.event e) => if e.closes then 1 else 0
  | _ => 0

/-- The events that have opened the containers of the frames. -/
def Grammar.openers (g : Grammar) : List Event :=
  g.frames.map Frame.opener

/-- What taking a token does to the frames, by what is told of it at
once or later. -/
inductive Grammar.Takes (g : Grammar) : Grammar × Reaction → Prop where
  | level {g' : Grammar} {r : Reaction} (hframes : g'.openers = g.openers)
      (hopening : dueOpening r.told = 0) (hclosing : dueClosing r.told = 0)
      (hended : r = .signal .ended → g.openers = []) : g.Takes (g', r)
  | opening {g' : Grammar} {r : Reaction} {e : Event} (hopens : e.opens)
      (htold : r.told = some (.event e))
      (hframes : g'.openers = e :: g.openers) : g.Takes (g', r)
  /-- Beyond the limit a container is told of and has no frame. -/
  | beyond {g' : Grammar} {fault : Fault} {e : Event} (hopens : e.opens)
      (hframes : g'.openers = g.openers) :
      g.Takes (g', .fault fault (some (.event e)))
  | closing {g' : Grammar} {r : Reaction} {e o : Event}
      (hcloses : e.opener? = some o) (htold : r.told = some (.event e))
      (hframes : g.openers = o :: g'.openers) : g.Takes (g', r)
  /-- Behind a member that nothing separates, an object is given up. -/
  | givingUp {g' : Grammar} {fault : Fault} {o : Event}
      (hframes : g.openers = o :: g'.openers) :
      g.Takes (g', .fault fault none)

section

variable {g g' : Grammar} {r : Reaction} {t : Token} {e : Event} {f : Frame}
  {rest : List Frame}

theorem Grammar.openers_replace {f' : Frame} (hframes : g.frames = f :: rest)
    (hopener : f'.opener = f.opener) : (g.replace f').openers = g.openers := by
  have hreplace : (g.replace f').frames = f' :: g.frames.tail := rfl
  rw [openers, hreplace, openers, hframes, List.tail_cons, List.map_cons,
    List.map_cons, hopener]

theorem Grammar.openers_pop (hframes : g.frames = f :: rest) :
    g.openers = f.opener :: g.pop.openers := by
  have hpop : g.pop.frames = g.frames.tail := rfl
  rw [openers, openers, hpop, hframes, List.tail_cons, List.map_cons]

theorem Grammar.length_openers (g : Grammar) :
    g.openers.length = g.height := by
  rw [openers, List.length_map, g.height_eq]

theorem Grammar.Takes.congr {g₁ : Grammar} {r : Grammar × Reaction}
    (h : g₁.Takes r) (hg : g₁.openers = g.openers) : g.Takes r := by
  cases h with
  | level hframes hopening hclosing hended =>
      exact .level (hframes.trans hg) hopening hclosing (hg ▸ hended)
  | opening hopens htold hframes => exact .opening hopens htold (hg ▸ hframes)
  | beyond hopens hframes => exact .beyond hopens (hframes.trans hg)
  | closing hcloses htold hframes =>
      exact .closing hcloses htold (hg ▸ hframes)
  | givingUp hframes => exact .givingUp (hg ▸ hframes)

theorem Grammar.Takes.blaming (h : g.Takes (g', r)) (fault : Fault) :
    g.Takes (g', r.blaming fault) := by
  cases h with
  | level hframes hopening hclosing =>
      exact .level hframes hopening hclosing fun h => by cases h
  | opening hopens htold hframes => exact .opening hopens htold hframes
  | beyond hopens hframes => exact .beyond hopens hframes
  | closing hcloses htold hframes => exact .closing hcloses htold hframes
  | givingUp hframes => exact .givingUp hframes

theorem Grammar.takes_value (g : Grammar) (t : Token) :
    g.Takes (g.value t) := by
  cases t with
  | openObject | openArray =>
      simp only [value, enter]
      split
      · exact .opening rfl rfl rfl
      · exact .beyond rfl rfl
  | _ => exact .level rfl rfl rfl fun h => by cases h

theorem Grammar.takes_key (hframes : g.frames = f :: rest)
    (hopener : f.opener = .startObject) (t : Token) : g.Takes (g.key t) := by
  have hkept : (g.replace .colon).openers = g.openers :=
    openers_replace hframes hopener.symm
  cases t <;> exact .level hkept rfl rfl fun h => by cases h

theorem Grammar.takes_accept (g : Grammar) (t : Token) :
    g.Takes (g.accept t) := by
  have hvalue (f' : Frame) {f : Frame} {rest : List Frame}
      (hframes : g.frames = f :: rest) (hopener : f'.opener = f.opener) :
      g.Takes ((g.replace f').value t) :=
    (takes_value _ t).congr (openers_replace hframes hopener)
  unfold accept
  split
  case h_1 hframes =>
      have hnone : g.openers = [] := by rw [openers, hframes, List.map_nil]
      split
      · split <;> exact .level rfl rfl rfl fun _ => hnone
      · exact (takes_value _ t).congr rfl
  case h_2 hframes | h_3 hframes =>
      split
      · exact .closing rfl rfl (openers_pop hframes)
      · exact takes_key hframes rfl t
  case h_4 hframes =>
      split
      · exact .level (openers_replace hframes rfl) rfl rfl fun h => by cases h
      · exact (hvalue .memberEnd hframes rfl).blaming _
  case h_5 hframes => exact hvalue .memberEnd hframes rfl
  case h_6 hframes =>
      split
      · exact .level (openers_replace hframes rfl) rfl rfl fun h => by cases h
      · exact .closing rfl rfl (openers_pop hframes)
      · exact .givingUp (openers_pop hframes)
  case h_7 hframes | h_8 hframes =>
      split
      · exact .closing rfl rfl (openers_pop hframes)
      · exact hvalue .itemEnd hframes rfl
  case h_9 hframes =>
      split
      · exact .level (openers_replace hframes rfl) rfl rfl fun h => by cases h
      · exact .closing rfl rfl (openers_pop hframes)
      · exact (hvalue .itemEnd hframes rfl).blaming _

/-- With what is told, be it at once or later, a token never leaves more frames
than containers. -/
theorem Grammar.Takes.height_le (h : g.Takes (g', r)) :
    g'.height + dueClosing r.told ≤ g.height + dueOpening r.told := by
  rw [← g.length_openers, ← g'.length_openers]
  cases h with
  | level hframes hopening hclosing =>
      have hlength := congrArg List.length hframes
      omega
  | opening hopens htold hframes =>
      rw [hframes, htold]
      simp [dueOpening, dueClosing, hopens, Event.not_closes_of_opens hopens]
  | beyond hopens hframes =>
      rw [hframes]
      simp [Reaction.told, dueOpening, dueClosing,
        Event.not_closes_of_opens hopens]
  | closing hcloses htold hframes =>
      rw [hframes, htold]
      simp [dueOpening, dueClosing, Event.closes, hcloses]
  | givingUp hframes =>
      rw [hframes]
      exact Nat.le_succ _

/-- A token in its place does with the frames what is told of it. -/
theorem Grammar.Takes.openers_eq (h : g.Takes (g', .signal (.event e))) :
    g'.openers = e.onto g.openers ∧
      ∀ o, e.opener? = some o → g.openers.head? = some o := by
  rw [Event.onto]
  cases h with
  | level hframes hopening hclosing =>
      have hopens : e.opens = false := by
        simpa [Reaction.told, dueOpening] using hopening
      have hcloses : e.closes = false := by
        simpa [Reaction.told, dueClosing] using hclosing
      refine ⟨by simp [hframes, hopens, hcloses], fun o ho => ?_⟩
      rw [Event.closes, ho] at hcloses
      cases hcloses
  | opening hopens htold hframes =>
      cases htold
      refine ⟨by rw [if_pos hopens, hframes], fun o ho => ?_⟩
      have hcloses := Event.not_closes_of_opens hopens
      rw [Event.closes, ho] at hcloses
      cases hcloses
  | closing hcloses htold hframes =>
      cases htold
      have hcloses' : e.closes := by rw [Event.closes, hcloses]; rfl
      refine ⟨?_, fun o ho => ?_⟩
      · rw [if_neg (by simp [Event.not_opens_of_closes hcloses']),
          if_pos hcloses', hframes, List.tail_cons]
      · rw [hframes, List.head?_cons, ← hcloses, ho]

theorem Grammar.Takes.openers_of_silent (h : g.Takes (g', .silent)) :
    g'.openers = g.openers := by
  cases h with
  | level hframes => exact hframes
  | opening _ htold | closing _ htold => cases htold

theorem Grammar.Takes.openers_of_ended (h : g.Takes (g', .signal .ended)) :
    g.openers = [] ∧ g'.openers = [] := by
  cases h with
  | level hframes _ _ hended =>
      exact ⟨hended rfl, hframes.trans (hended rfl)⟩
  | opening _ htold | closing _ htold => cases htold

end

/-! ## What a step does -/

/-- What a step does to the grammar, to the depth and to what is due. Either
something due is told, or a token is taken, or bytes are at most skipped. -/
inductive Scanner.Moves (s : Scanner) (ending : Bool) :
    Step × Scanner → Prop where
  | tellsDue {signal : Signal} {s' : Scanner} (hdue : s.due = some signal)
      (hgrammar : s'.grammar = s.grammar) (hdue' : s'.due = none)
      (hdepth : s'.depth = s.depth) : s.Moves ending (s'.tell signal)
  | tells {t : Token} {signal : Signal} {s' : Scanner} (hdue : s.due = none)
      (htakes : s.grammar.accept t = (s'.grammar, .signal signal))
      (hdue' : s'.due = none) (hdepth : s'.depth = s.depth) :
      s.Moves ending (s'.tell signal)
  | separates {t : Token} {s' : Scanner} (hdue : s.due = none)
      (htakes : s.grammar.accept t = (s'.grammar, .silent))
      (hdue' : s'.due = none) (hdepth : s'.depth = s.depth) :
      s.Moves ending (.silent, s')
  | misplaces {t : Token} {fault : Fault} {f : ScanFault} {s' : Scanner}
      (hdue : s.due = none)
      (htakes : s.grammar.accept t = (s'.grammar, .fault fault s'.due))
      (hdepth : s'.depth = s.depth) : s.Moves ending (.fault f, s')
  | waits {s' : Scanner} (hending : ending = false) (hdue : s.due = none)
      (hgrammar : s'.grammar = s.grammar) (hdue' : s'.due = none)
      (hdepth : s'.depth = s.depth) : s.Moves ending (.idle, s')
  | breaks {f : ScanFault} {s' : Scanner} (hdue : s.due = none)
      (hgrammar : s'.grammar = s.grammar)
      (hdue' : s'.due = none ∨ s'.due = some .ended)
      (hdepth : s'.depth = s.depth) : s.Moves ending (.fault f, s')

theorem Scanner.open_grammar (s : Scanner) :
    s.open.grammar = s.grammar ∧ s.open.depth = s.depth := by
  unfold Scanner.open
  split
  · dsimp only
    split <;> exact ⟨rfl, rfl⟩
  · exact ⟨rfl, rfl⟩

theorem Scanner.react_moves {s : Scanner} (s' : Scanner) (hdue : s.due = none)
    (hgrammar : s'.grammar = s.grammar) (hdue' : s'.due = none)
    (hdepth : s'.depth = s.depth) (ending : Bool) (p : Position)
    (length : Nat) (t : Token) : s.Moves ending (s'.react p length t) := by
  unfold react
  rcases ha : s'.grammar.accept t with ⟨g, signal | _ | ⟨fault, due⟩⟩
  · rw [hgrammar] at ha
    exact @Moves.tells s ending t signal { s' with grammar := g } hdue ha
      hdue' hdepth
  · rw [hgrammar] at ha
    exact @Moves.separates s ending t { s' with grammar := g } hdue ha hdue'
      hdepth
  · rw [hgrammar] at ha
    exact @Moves.misplaces s ending t fault _ { s' with grammar := g, due }
      hdue ha hdepth

theorem Scanner.token_moves {s : Scanner} (u : Scanner) (hdue : s.due = none)
    (hgrammar : u.grammar = s.grammar) (hdue' : u.due = none)
    (hdepth : u.depth = s.depth) (ending : Bool) :
    s.Moves ending (u.token ending) := by
  unfold token
  split
  · cases ending with
    | true => exact react_moves u hdue hgrammar hdue' hdepth true _ _ _
    | false => exact .waits rfl hdue hgrammar hdue' hdepth
  · split
    · cases ending with
      | true =>
          exact @Moves.breaks s true _ { u with due := some .ended } hdue
            hgrammar (.inr rfl) hdepth
      | false => exact .waits rfl hdue hgrammar hdue' hdepth
    · next more _ =>
        exact react_moves (u.take more _) hdue hgrammar hdue' hdepth ending _ _ _
    · next more _ =>
        exact @Moves.breaks s ending _ (u.take more _) hdue hgrammar
          (.inl hdue') hdepth

theorem Scanner.next_moves (s : Scanner) (ending : Bool) :
    s.Moves ending (s.next ending) := by
  unfold next
  cases hdue : s.due with
  | some signal =>
      exact @Moves.tellsDue s ending signal { s with due := none } hdue rfl rfl
        rfl
  | none =>
      dsimp only
      split
      · next hwaits =>
          have hending : ending = false := by
            cases ending with
            | false => rfl
            | true => simp at hwaits
          exact .waits hending hdue rfl hdue rfl
      · obtain ⟨hgrammar, hdepth⟩ := s.open_grammar
        exact token_moves (s.open.skip ending) hdue hgrammar
          (s.open_due.trans hdue) hdepth ending

/-! ## Depths -/

theorem Event.depths_fst (e : Event) (depth : Nat) :
    (e.depths depth).1 = depth + if e.opens then 1 else 0 := by
  cases e <;> rfl

theorem Event.depths_snd {e : Event} {depth : Nat}
    (h : e.closes → 1 ≤ depth) :
    (e.depths depth).2 + (if e.closes then 1 else 0)
      = depth + if e.opens then 1 else 0 := by
  cases e with
  | endObject | endArray => exact Nat.sub_add_cancel (h rfl)
  | _ => rfl

theorem Event.depths_of_closes {e : Event} (h : e.closes) (depth : Nat) :
    (e.depths depth).1 = depth := by
  rw [e.depths_fst, not_opens_of_closes h]
  rfl

theorem nest_depths {stack : List (Event × Nat)} {depth : Nat}
    (h : stack.map Prod.snd = countdown depth) (e : Event) :
    (nest stack (e, (e.depths depth).1)).map Prod.snd
      = countdown (e.depths depth).2 := by
  cases e with
  | startObject | startArray => exact congrArg ((depth + 1) :: ·) h
  | endObject | endArray =>
      refine List.map_tail.trans ?_
      rw [h]
      cases depth <;> rfl
  | _ => exact h

/-- An event is told with the depth that the events before it give. One that
closes is told with the depth of what it closes. -/
structure Placed (before : List (Event × Nat)) (p : Event × Nat) : Prop where
  depth_eq : p.2 + closed before = opened before + if p.1.opens then 1 else 0
  closing : p.1.closes →
    1 ≤ p.2 ∧ (openAfter before).head?.map Prod.snd = some p.2

/-- A depth behind some events, all of them told with the depths
that they have. -/
structure Nested (depth : Nat) (told : List (Event × Nat)) : Prop where
  counted : depth + closed told = opened told
  depths_eq : (openAfter told).map Prod.snd = countdown depth
  placed : ∀ before p after, told = before ++ p :: after → Placed before p

theorem Nested.concat {depth : Nat} {told : List (Event × Nat)}
    (h : Nested depth told) {e : Event} (hclosing : e.closes → 1 ≤ depth) :
    Nested (e.depths depth).2 (told ++ [(e, (e.depths depth).1)]) := by
  have hcounted := h.counted
  refine ⟨?_, ?_, fun _ _ _ => forall_told_concat h.placed ⟨?_, ?_⟩⟩
  · have hdepth := Event.depths_snd hclosing
    rw [opened_concat, closed_concat]
    dsimp only
    omega
  · rw [openAfter_concat]
    exact nest_depths h.depths_eq e
  · have hdepth := e.depths_fst depth
    dsimp only
    omega
  · intro hcloses
    dsimp only
    obtain ⟨n, rfl⟩ : ∃ n, depth = n + 1 :=
      Nat.exists_eq_add_one_of_ne_zero (Nat.ne_of_gt (hclosing hcloses))
    rw [e.depths_of_closes hcloses, ← List.head?_map, h.depths_eq]
    exact ⟨Nat.le_add_left 1 n, rfl⟩

/-! ## What every run keeps -/

/-- The depth fits what was told, and there are not more frames than open
containers. -/
structure Scanner.Nests (s : Scanner) (told : List (Event × Nat)) :
    Prop where
  nested : Nested s.depth told
  height_le : s.grammar.height + dueClosing s.due
    ≤ s.depth + dueOpening s.due

section

variable {s : Scanner} {told : List (Event × Nat)}

theorem Scanner.Nests.tell {signal : Signal} (h : Nested s.depth told)
    (hdue : s.due = none)
    (hle : s.grammar.height + dueClosing (some signal)
      ≤ s.depth + dueOpening (some signal)) :
    (s.tell signal).2.Nests (told ++ (s.tell signal).1.told) := by
  cases signal with
  | ended =>
      rw [Scanner.tell, Step.told, List.append_nil]
      exact ⟨h, by rw [hdue]; exact hle⟩
  | event e =>
      have hle' : s.grammar.height + (if e.closes then 1 else 0)
          ≤ s.depth + if e.opens then 1 else 0 := hle
      have hclosing : e.closes → 1 ≤ s.depth := fun hcloses => by
        rw [if_pos hcloses, Event.not_opens_of_closes hcloses] at hle'
        exact Nat.le_trans (Nat.le_add_left 1 _) hle'
      have hdepth := Event.depths_snd hclosing
      rw [tell_event, Step.told]
      refine ⟨h.concat hclosing, ?_⟩
      rw [hdue]
      simp only [dueClosing, dueOpening]
      omega

theorem Scanner.Nests.next (h : s.Nests told) (ending : Bool) :
    (s.next ending).2.Nests (told ++ (s.next ending).1.told) := by
  have hle := h.height_le
  have htakes {t : Token} {g' : Grammar} {r : Reaction}
      (ha : s.grammar.accept t = (g', r)) (hdue : s.due = none) :
      g'.height + dueClosing r.told ≤ s.depth + dueOpening r.told := by
    have hstep := (ha ▸ s.grammar.takes_accept t).height_le
    rw [hdue] at hle
    exact Nat.le_trans hstep (Nat.add_le_add_right hle _)
  have hmoves := s.next_moves ending
  generalize s.next ending = moved at hmoves ⊢
  cases hmoves with
  | tellsDue hdue hgrammar hdue' hdepth =>
      refine tell (hdepth ▸ h.nested) hdue' ?_
      rw [hgrammar, hdepth, ← hdue]
      exact hle
  | tells hdue ha hdue' hdepth =>
      exact tell (hdepth ▸ h.nested) hdue' (hdepth ▸ htakes ha hdue)
  | separates hdue ha hdue' hdepth =>
      rw [Step.told, List.append_nil]
      exact ⟨hdepth ▸ h.nested, by rw [hdue', hdepth]; exact htakes ha hdue⟩
  | misplaces hdue ha hdepth =>
      rw [Step.told, List.append_nil]
      exact ⟨hdepth ▸ h.nested, by rw [hdepth]; exact htakes ha hdue⟩
  | waits hending hdue hgrammar hdue' hdepth =>
      rw [Step.told, List.append_nil]
      refine ⟨hdepth ▸ h.nested, ?_⟩
      rw [hgrammar, hdepth, hdue', ← hdue]
      exact hle
  | breaks hdue hgrammar hdue' hdepth =>
      rw [Step.told, List.append_nil]
      refine ⟨hdepth ▸ h.nested, ?_⟩
      rw [hdue] at hle
      rw [hgrammar, hdepth]
      rcases hdue' with hdue' | hdue' <;> rw [hdue'] <;> exact hle

end

/-! ## What a run without a fault keeps -/

theorem nest_events (stack : List (Event × Nat)) (p : Event × Nat) :
    (nest stack p).map Prod.fst = p.1.onto (stack.map Prod.fst) := by
  unfold nest Event.onto
  split
  · rfl
  · split
    · exact List.map_tail
    · rfl

theorem Token.read_blank {b : UInt8} (h : isBlank b) (ending : Bool)
    (rest : List UInt8) (t : Token) (more : Nat) :
    Token.read ending b rest ≠ .token t more := by
  have hb : (((b = 0x20 ∨ b = 0x09) ∨ b = 0x0A) ∨ b = 0x0C) ∨ b = 0x0D := by
    simpa [isBlank] using h
  rcases hb with (((rfl | rfl) | rfl) | rfl) | rfl <;> exact Lexeme.noConfusion

theorem Grammar.openers_of_endOfText {g : Grammar} (h : g.openers = []) :
    (g.accept .endOfText).1.openers = [] := by
  have hframes : g.frames = [] := List.map_eq_nil_iff.mp h
  unfold accept
  split
  case h_1 =>
      split
      · exact h
      · exact h
  all_goals
    next hsome =>
      rw [hframes] at hsome
      cases hsome

theorem Scanner.react_grammar (s : Scanner) (p : Position) (length : Nat)
    (t : Token) : (s.react p length t).2.grammar = (s.grammar.accept t).1 := by
  unfold react
  rcases s.grammar.accept t with ⟨g, signal | _ | ⟨fault, due⟩⟩
  · cases signal with
    | ended => rfl
    | event e => cases e <;> rfl
  · rfl
  · rfl

/-- Where nothing was opened, blanks open nothing. -/
theorem Scanner.token_openers {s : Scanner} (h : s.grammar.openers = [])
    (hblank : ∀ b ∈ s.pending, isBlank b) (ending : Bool) :
    (s.token ending).2.grammar.openers = [] := by
  unfold token
  split
  · split
    · rw [react_grammar]
      exact Grammar.openers_of_endOfText h
    · exact h
  · next b rest hpending =>
      have hb : isBlank b := hblank b (hpending ▸ List.mem_cons_self)
      split
      · split <;> exact h
      · next hread => exact absurd hread (Token.read_blank hb _ _ _ _)
      · exact h

theorem Scanner.next_openers {s : Scanner} (hdue : s.due = none)
    (h : s.grammar.openers = []) (hblank : ∀ b ∈ s.pending, isBlank b)
    (ending : Bool) : (s.next ending).2.grammar.openers = [] := by
  unfold next
  rw [hdue]
  dsimp only
  split
  · exact h
  · obtain ⟨hgrammar, -⟩ := s.open_grammar
    refine @token_openers (s.open.skip ending) (hgrammar ▸ h) ?_ ending
    obtain ⟨taken, hpending, -⟩ :=
      s.open_passes.trans (s.open.skip_passes ending)
    exact fun b hb => hblank b (hpending ▸ List.mem_append_right _ hb)

/-- While nothing is wrong, the frames are those of the open containers. -/
structure Scanner.InStep (s : Scanner) (told : List (Event × Nat)) :
    Prop where
  due : s.due = none
  openers_eq : s.grammar.openers = (openAfter told).map Prod.fst
  opener : ∀ before p after, told = before ++ p :: after →
    ∀ o, p.1.opener? = some o → (openAfter before).head?.map Prod.fst = some o
  blank : s.started = false →
    s.grammar.openers = [] ∧ ∀ b ∈ s.pending, isBlank b

section

variable {s : Scanner} {told : List (Event × Nat)}

theorem Scanner.InStep.next (h : s.InStep told) {ending : Bool}
    (hfault : ∀ fault, (s.next ending).1 ≠ .fault fault) :
    (s.next ending).2.InStep (told ++ (s.next ending).1.told) := by
  have hblank : (s.next ending).2.started = false →
      (s.next ending).2.grammar.openers = [] ∧
        ∀ b ∈ (s.next ending).2.pending, isBlank b := by
    rw [next_started]
    intro hstarted
    obtain ⟨hopeners, hpending⟩ := h.blank hstarted
    obtain ⟨taken, hpasses, -⟩ := s.next_passes ending
    refine ⟨next_openers h.due hopeners hpending ending, fun b hb => ?_⟩
    exact hpending b (hpasses ▸ List.mem_append_right _ hb)
  have hmoves := s.next_moves ending
  generalize s.next ending = moved at hmoves hfault hblank ⊢
  cases hmoves with
  | tellsDue hdue => rw [h.due] at hdue; cases hdue
  | misplaces | breaks => exact absurd rfl (hfault _)
  | @tells t signal s' hdue ha hdue' hdepth =>
      have htakes := ha ▸ s.grammar.takes_accept t
      cases signal with
      | ended =>
          obtain ⟨hopeners, hopeners'⟩ := htakes.openers_of_ended
          rw [Scanner.tell] at hblank ⊢
          rw [Step.told, List.append_nil]
          exact ⟨hdue', hopeners'.trans (hopeners.symm.trans h.openers_eq),
            h.opener, hblank⟩
      | event e =>
          obtain ⟨hopeners, hopener⟩ := htakes.openers_eq
          rw [tell_event] at hblank ⊢
          rw [h.openers_eq] at hopeners hopener
          refine ⟨hdue', ?_, fun _ _ _ => forall_told_concat h.opener ?_,
            hblank⟩
          · rw [Step.told, openAfter_concat, nest_events]
            exact hopeners
          · rw [← List.head?_map]
            exact hopener
  | @separates t s' hdue ha hdue' hdepth =>
      rw [Step.told, List.append_nil]
      have htakes := ha ▸ s.grammar.takes_accept t
      exact ⟨hdue', htakes.openers_of_silent.trans h.openers_eq, h.opener,
        hblank⟩
  | waits hending hdue hgrammar hdue' hdepth =>
      rw [Step.told, List.append_nil]
      exact ⟨hdue', hgrammar ▸ h.openers_eq, h.opener, hblank⟩

theorem Scanner.InStep.receive (h : s.InStep told) (part : List UInt8) :
    (s.receive part).InStep told := by
  refine ⟨h.due, h.openers_eq, h.opener, fun hstarted => ?_⟩
  obtain ⟨hs, hpart⟩ := Bool.or_eq_false_iff.mp hstarted
  obtain ⟨hopeners, hblank⟩ := h.blank hs
  refine ⟨hopeners, fun b hb => ?_⟩
  rcases List.mem_append.mp hb with hold | hnew
  · exact hblank b hold
  · simpa using List.any_eq_false.mp hpart b hnew

/-- Behind the end of a text that has no fault, nothing is open. -/
theorem Scanner.InStep.openAfter_of_idle (h : s.InStep told) {s' : Scanner}
    (hidle : s.next true = (.idle, s')) : openAfter told = [] := by
  have hmoves := hidle ▸ s.next_moves true
  generalize hmoved : (Step.idle, s') = moved at hmoves
  cases hmoves with
  | tellsDue hdue => rw [h.due] at hdue; cases hdue
  | @tells t signal u hdue ha hdue' hdepth =>
      cases signal with
      | ended =>
          have htakes := ha ▸ s.grammar.takes_accept t
          have hopeners := htakes.openers_of_ended.1
          rw [h.openers_eq] at hopeners
          exact List.map_eq_nil_iff.mp hopeners
      | event e => rw [tell_event] at hmoved; cases hmoved
  | waits hending => cases hending
  | separates | misplaces | breaks => cases hmoved

end

theorem Nested.depth_eq_zero {depth : Nat} {told : List (Event × Nat)}
    (h : Nested depth told) (hopen : openAfter told = []) : depth = 0 := by
  have hdepths := h.depths_eq
  rw [hopen] at hdepths
  cases depth with
  | zero => rfl
  | succ n => cases hdepths

section

variable {σ ε : Type} {listen : σ → Event → Nat → Except ε Unit × σ}
  {refusal : ScanFault → ε}

theorem Scanner.start_nests : Scanner.start.Nests [] :=
  ⟨⟨rfl, rfl, fun _ _ _ h => absurd h (by simp)⟩, Nat.le_refl 0⟩

theorem Scanner.start_inStep : Scanner.start.InStep [] :=
  ⟨rfl, rfl, fun _ _ _ h => absurd h (by simp), fun _ => ⟨rfl, nofun⟩⟩

theorem Scanner.callEach_nests (x : σ) (calls : List ScanCall) :
    (Scanner.start.callEach (noting listen) refusal ([], x) calls).2.2.Nests
      (Scanner.start.callEach (noting listen) refusal ([], x) calls).2.1.1 :=
  @callEach_keeps σ ε listen refusal Nests True
    (fun _ _ _ h => ⟨h.nested, h.height_le⟩)
    (fun _ _ ending h _ => h.next ending) _ ([], x) start_nests calls
    fun _ _ => trivial

theorem Scanner.callEach_inStep (x : σ) {calls : List ScanCall}
    (h : ∀ fault, .error (refusal fault) ∉
      (Scanner.start.callEach (noting listen) refusal ([], x) calls).1) :
    (Scanner.start.callEach (noting listen) refusal ([], x) calls).2.2.InStep
      (Scanner.start.callEach (noting listen) refusal ([], x) calls).2.1.1 :=
  @callEach_keeps σ ε listen refusal InStep False
    (fun _ _ part h => h.receive part) (fun _ _ _ h hf => h.next hf) _ ([], x)
    start_inStep calls h

/-- A text that is let pass leaves nothing open. -/
theorem Scanner.openAfter_of_finish {s : Scanner}
    {notes : List (Event × Nat) × σ} (h : s.InStep notes.1)
    (hok : (s.finish (noting listen) refusal notes).1 = .ok ()) :
    openAfter (s.finish (noting listen) refusal notes).2.1.1 = [] := by
  unfold finish at hok ⊢
  cases hstarted : s.started with
  | false =>
      obtain ⟨hopeners, -⟩ := h.blank hstarted
      rw [h.openers_eq] at hopeners
      exact List.map_eq_nil_iff.mp hopeners
  | true =>
      rw [hstarted, if_pos rfl] at hok
      obtain ⟨s', hkept, hidle⟩ :=
        @drain_last_step σ ε listen refusal InStep False true
          (fun _ _ h hf => h.next hf) s _ notes _ h (Prod.ext hok rfl)
      exact hkept.openAfter_of_idle hidle

theorem Scanner.openAfter_of_finished (x : σ) {calls : List ScanCall}
    (h : ∀ fault, .error (refusal fault) ∉
      (Scanner.start.callEach (noting listen) refusal ([], x) calls).1)
    (hfinish : calls.getLast? = some .finish)
    (hok : (Scanner.start.callEach (noting listen) refusal ([], x)
      calls).1.getLast? = some (.ok ())) :
    openAfter (Scanner.start.callEach (noting listen) refusal ([], x)
      calls).2.1.1 = [] := by
  obtain ⟨init, rfl⟩ := List.getLast?_eq_some_iff.mp hfinish
  rw [callEach_concat] at h hok ⊢
  have hinit := callEach_inStep x fun fault hmem =>
    h fault (List.mem_append_left _ hmem)
  rw [List.getLast?_concat, Option.some.injEq] at hok
  exact openAfter_of_finish hinit hok

end

/-- Depths are the true nesting, whatever a scanner is called with and whatever
comes of a call, be it a fault or a refusal of the listener's. An event is told
with as many containers as the events before it have opened and not closed, and
one more if it opens one itself. So the depth of an event that closes is that of
the last opening that was not closed, with balanced events between the two, and
it is at least one: there is always something to take away.

Without a fault the two are of the same kind, and where the end of the text was
let pass, nothing is open. -/
theorem Scanner.depths_nest {σ ε : Type}
    (listen : σ → Event → Nat → Except ε Unit × σ) (refusal : ScanFault → ε)
    (x : σ) (calls : List ScanCall) :
    let run := Scanner.start.callEach (noting listen) refusal ([], x) calls
    let told := run.2.1.1
    let faultless := ∀ fault, .error (refusal fault) ∉ run.1
    (∀ before e depth after, told = before ++ (e, depth) :: after →
      depth + closed before = opened before + (if e.opens then 1 else 0) ∧
      (e.closes → 1 ≤ depth ∧ ∃ front o inside,
        before = front ++ (o, depth) :: inside ∧ o.opens ∧
        Balanced (inside.map Prod.fst) ∧
        (faultless → e.opener? = some o))) ∧
    run.2.2.depth + closed told = opened told ∧
    (faultless → calls.getLast? = some .finish →
      run.1.getLast? = some (.ok ()) → run.2.2.depth = 0) := by
  intro run told faultless
  have hnests : run.2.2.Nests told := callEach_nests x calls
  refine ⟨fun before e depth after htold => ?_, hnests.nested.counted,
    fun hfine hfinish hok => ?_⟩
  · obtain ⟨hdepth, hclosing⟩ := hnests.nested.placed _ _ _ htold
    refine ⟨hdepth, fun hcloses => ?_⟩
    obtain ⟨hpos, hhead⟩ := hclosing hcloses
    cases hopen : openAfter before with
    | nil => rw [hopen] at hhead; cases hhead
    | cons p rest =>
        obtain ⟨front, inside, hbefore, hopens, hbalanced, -⟩ :=
          exists_opening hopen
        obtain rfl : p.2 = depth := by simpa [hopen] using hhead
        refine ⟨hpos, front, p.1, inside, hbefore, hopens, hbalanced,
          fun hfine => ?_⟩
        obtain ⟨o, ho⟩ := Option.isSome_iff_exists.mp hcloses
        have hopener :=
          (callEach_inStep x hfine).opener _ _ _ htold o ho
        rw [hopen] at hopener
        exact ho.trans hopener.symm
  · exact hnests.nested.depth_eq_zero
      (openAfter_of_finished x hfine hfinish hok)

/-- Behind a fault an array may close what an object has opened: the object,
whose members nothing separates, is given up without an event. -/
example : (Scanner.start.callEach
    (Scanner.noting fun (x : Unit) _ _ => (.ok (), x)) id ([], ())
    [.feed "[\x7b\"a\":1 2".toUTF8.toList, .feed "]".toUTF8.toList,
      .feed []]).2.1.1
    = [(.startArray, 1), (.startObject, 2), (.key "a", 2), (.number "1", 2),
      (.endArray, 2)] := by
  decide +kernel

end Ridership.Json
