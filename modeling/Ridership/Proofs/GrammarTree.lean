import Ridership.Proofs.Tree

/-!
# What the grammar lets pass is a tree

The grammar of a text that arrives keeps a stack of frames and settles one
token at a time; a tree is read by descent, one value at a time. The two meet
here. Tokens that the grammar takes up to the end of the text without a fault
(`Grammar.tells`) are the tokens of a tree, and what the grammar tells of them
is what the tree tells of itself.

Only the value at the front of the tokens can be spoken of, since the frames
around it are still open. So the statements are about a grammar that goes on
behind a value: whatever it stood at before the value, it stands at again. One
induction on the number of tokens carries the statement for values together
with those for the items and the members that are left of a container.
-/

namespace Ridership.Json

/-- The depth that an event is told with, and the one it leaves behind. -/
def Event.depths (depth : Nat) : Event → Nat × Nat
  | .startObject | .startArray => (depth + 1, depth + 1)
  | .endObject | .endArray => (depth, depth - 1)
  | _ => (depth, depth)

/-- What is told from the front of a text on, by a grammar that told nothing
amiss: the reaction to a token and then the rest. -/
def Grammar.thenTells (tells : Grammar → Nat → Option (List (Event × Nat)))
    (depth : Nat) : Grammar × Reaction → Option (List (Event × Nat))
  | (g, .signal (.event e)) =>
      (tells g (e.depths depth).2).map ((e, (e.depths depth).1) :: ·)
  | (g, .silent) => tells g depth
  | _ => none

/-- What is told of some tokens and the end of the text behind them, with
`depth` containers open, if the grammar lets all of it pass. -/
def Grammar.tells (g : Grammar) (depth : Nat) :
    List Token → Option (List (Event × Nat))
  | [] => if (g.accept .endOfText).2 = .signal .ended then some [] else none
  | t :: tokens =>
      Grammar.thenTells (fun g depth => g.tells depth tokens) depth (g.accept t)

/-- What is told behind a reaction. -/
abbrev Grammar.goesOn (r : Grammar × Reaction) (depth : Nat)
    (tokens : List Token) : Option (List (Event × Nat)) :=
  Grammar.thenTells (fun g depth => g.tells depth tokens) depth r

/-! ## One token inside a container

Each frame lets only so much come next: behind a member there is another one
or the end of the object, behind a key a colon and a value, and so on. Told
events bear out that just this came, for anything else would have been a fault
and nothing would be told. -/

section

variable {g : Grammar} {depth : Nat} {tokens : List Token}
  {told : List (Event × Nat)}

theorem Grammar.tells_nil_push (f : Frame) :
    (g.push f).tells depth [] = none := by
  rw [tells, if_neg]
  intro h
  cases f <;> cases h

theorem Grammar.tells_itemEnd
    (h : (g.push .itemEnd).tells (depth + 1) tokens = some told) :
    (∃ rest, tokens = .comma :: rest ∧
      (g.push .nextItem).tells (depth + 1) rest = some told) ∨
    (∃ rest told', tokens = .closeArray :: rest ∧
      g.tells depth rest = some told' ∧
      told = (.endArray, depth + 1) :: told') := by
  match tokens with
  | [] => rw [tells_nil_push] at h; cases h
  | t :: rest =>
      rw [tells] at h
      cases t
      case comma => exact .inl ⟨rest, rfl, h⟩
      case closeArray =>
          obtain ⟨told', htold, rfl⟩ := Option.map_eq_some_iff.mp h
          exact .inr ⟨rest, told', rfl, htold, rfl⟩
      all_goals cases h

theorem Grammar.tells_memberEnd
    (h : (g.push .memberEnd).tells (depth + 1) tokens = some told) :
    (∃ rest, tokens = .comma :: rest ∧
      (g.push .nextKey).tells (depth + 1) rest = some told) ∨
    (∃ rest told', tokens = .closeObject :: rest ∧
      g.tells depth rest = some told' ∧
      told = (.endObject, depth + 1) :: told') := by
  match tokens with
  | [] => rw [tells_nil_push] at h; cases h
  | t :: rest =>
      rw [tells] at h
      cases t
      case comma => exact .inl ⟨rest, rfl, h⟩
      case closeObject =>
          obtain ⟨told', htold, rfl⟩ := Option.map_eq_some_iff.mp h
          exact .inr ⟨rest, told', rfl, htold, rfl⟩
      all_goals cases h

theorem Grammar.tells_nextItem
    (h : (g.push .nextItem).tells (depth + 1) tokens = some told) :
    ∃ t rest, tokens = t :: rest ∧
      Grammar.goesOn ((g.push .itemEnd).value t) (depth + 1) rest
        = some told := by
  match tokens with
  | [] => rw [tells_nil_push] at h; cases h
  | t :: rest =>
      refine ⟨t, rest, rfl, ?_⟩
      rw [tells] at h
      cases t
      case closeArray => cases h
      all_goals exact h

theorem Grammar.tells_colon
    (h : (g.push .colon).tells (depth + 1) tokens = some told) :
    ∃ t rest, tokens = .colon :: t :: rest ∧
      Grammar.goesOn ((g.push .memberEnd).value t) (depth + 1) rest
        = some told := by
  match tokens with
  | [] => rw [tells_nil_push] at h; cases h
  | c :: tokens =>
      rw [tells] at h
      cases c
      case colon =>
          match tokens with
          | [] =>
              have hnil := @tells_nil_push g (depth + 1) .memberValue
              exact absurd (h.symm.trans hnil) (by simp)
          | t :: rest => exact ⟨t, rest, rfl, h⟩
      all_goals cases h

theorem Grammar.goesOn_key {f : Frame} {t : Token}
    (h : Grammar.goesOn ((g.push f).key t) (depth + 1) tokens = some told) :
    ∃ name told', t = .string name ∧
      (g.push .colon).tells (depth + 1) tokens = some told' ∧
      told = (.key name, depth + 1) :: told' := by
  cases t
  case string name =>
      obtain ⟨told', htold, rfl⟩ := Option.map_eq_some_iff.mp h
      exact ⟨name, told', rfl, htold, rfl⟩
  all_goals cases h

theorem Grammar.tells_nextKey
    (h : (g.push .nextKey).tells (depth + 1) tokens = some told) :
    ∃ name rest told', tokens = .string name :: rest ∧
      (g.push .colon).tells (depth + 1) rest = some told' ∧
      told = (.key name, depth + 1) :: told' := by
  match tokens with
  | [] => rw [tells_nil_push] at h; cases h
  | t :: rest =>
      have hkey : Grammar.goesOn ((g.push .nextKey).key t) (depth + 1) rest
          = some told := by
        rw [tells] at h
        cases t
        case closeObject => cases h
        all_goals exact h
      obtain ⟨name, told', rfl, htold, rfl⟩ := goesOn_key hkey
      exact ⟨name, rest, told', rfl, htold, rfl⟩

theorem Grammar.tells_firstItem
    (h : (g.push .firstItem).tells (depth + 1) tokens = some told) :
    (∃ rest told', tokens = .closeArray :: rest ∧
      g.tells depth rest = some told' ∧
      told = (.endArray, depth + 1) :: told') ∨
    (∃ t rest, tokens = t :: rest ∧ t ≠ .closeArray ∧
      Grammar.goesOn ((g.push .itemEnd).value t) (depth + 1) rest
        = some told) := by
  match tokens with
  | [] => rw [tells_nil_push] at h; cases h
  | t :: rest =>
      rw [tells] at h
      cases t
      case closeArray =>
          obtain ⟨told', htold, rfl⟩ := Option.map_eq_some_iff.mp h
          exact .inl ⟨rest, told', rfl, htold, rfl⟩
      all_goals exact .inr ⟨_, rest, rfl, Token.noConfusion, h⟩

theorem Grammar.tells_firstKey
    (h : (g.push .firstKey).tells (depth + 1) tokens = some told) :
    (∃ rest told', tokens = .closeObject :: rest ∧
      g.tells depth rest = some told' ∧
      told = (.endObject, depth + 1) :: told') ∨
    (∃ name rest told', tokens = .string name :: rest ∧
      (g.push .colon).tells (depth + 1) rest = some told' ∧
      told = (.key name, depth + 1) :: told') := by
  match tokens with
  | [] => rw [tells_nil_push] at h; cases h
  | t :: rest =>
      rw [tells] at h
      by_cases ht : t = .closeObject
      · subst ht
        obtain ⟨told', htold, rfl⟩ := Option.map_eq_some_iff.mp h
        exact .inl ⟨rest, told', rfl, htold, rfl⟩
      · have hkey : Grammar.goesOn ((g.push .firstKey).key t) (depth + 1) rest
            = some told := by
          cases t
          case closeObject => exact absurd rfl ht
          all_goals exact h
        obtain ⟨name, told', rfl, htold, rfl⟩ := goesOn_key hkey
        exact .inr ⟨name, rest, told', rfl, htold, rfl⟩

theorem Grammar.goesOn_enter {f : Frame} {e : Event}
    (h : Grammar.goesOn (g.enter f e) depth tokens = some told) :
    ∃ told', (g.push f).tells (e.depths depth).2 tokens = some told' ∧
      told = (e, (e.depths depth).1) :: told' := by
  unfold enter at h
  split at h
  · obtain ⟨told', htold, rfl⟩ := Option.map_eq_some_iff.mp h
    exact ⟨told', htold, rfl⟩
  · cases h

end

/-! ## Reading a container off the front -/

theorem Tree.read_array {t : Token} {tokens : List Token} {items : List Tree}
    {rest : { rest : List Token // rest.length < (t :: tokens).length }}
    (ht : t ≠ .closeArray)
    (h : Tree.readItems (t :: tokens) = some (items, rest)) :
    ∃ hlt, Tree.read (.openArray :: t :: tokens)
      = some (.array items, ⟨rest.1, hlt⟩) := by
  refine ⟨Nat.lt_succ_of_lt rest.2, ?_⟩
  rw [Tree.read.eq_def]
  cases t
  case closeArray => exact absurd rfl ht
  all_goals simp only [h]

theorem Tree.read_object {key : String} {tokens : List Token}
    {members : List (String × Tree)}
    {rest : { rest : List Token //
      rest.length < (Token.string key :: tokens).length }}
    (h : Tree.readMembers (.string key :: tokens) = some (members, rest)) :
    ∃ hlt, Tree.read (.openObject :: .string key :: tokens)
      = some (.object members, ⟨rest.1, hlt⟩) := by
  refine ⟨Nat.lt_succ_of_lt rest.2, ?_⟩
  rw [Tree.read.eq_def]
  simp only [h]

/-! ## The induction -/

/-- With fewer than `n` tokens behind its first, a value that the grammar lets
pass is read, and the grammar goes on behind it. -/
def ReadsValue (n : Nat) : Prop :=
  ∀ (g : Grammar) (depth : Nat) (t : Token) (tokens : List Token)
    (told : List (Event × Nat)), tokens.length < n →
    Grammar.goesOn (g.value t) depth tokens = some told →
    ∃ tree rest told', Tree.read (t :: tokens) = some (tree, rest) ∧
      g.tells depth rest.1 = some told' ∧ told = tree.events depth ++ told'

/-- The same for the items that are left of an array. -/
def ReadsItems (n : Nat) : Prop :=
  ∀ (g : Grammar) (depth : Nat) (t : Token) (tokens : List Token)
    (told : List (Event × Nat)), tokens.length < n →
    Grammar.goesOn ((g.push .itemEnd).value t) (depth + 1) tokens = some told →
    ∃ items rest told', Tree.readItems (t :: tokens) = some (items, rest) ∧
      g.tells depth rest.1 = some told' ∧
      told = Tree.itemEvents (depth + 1) items
        ++ (.endArray, depth + 1) :: told'

/-- The same for the members that are left of an object, whose key is told. -/
def ReadsMembers (n : Nat) : Prop :=
  ∀ (g : Grammar) (depth : Nat) (key : String) (tokens : List Token)
    (told : List (Event × Nat)), tokens.length < n →
    (g.push .colon).tells (depth + 1) tokens = some told →
    ∃ members rest told',
      Tree.readMembers (.string key :: tokens) = some (members, rest) ∧
      g.tells depth rest.1 = some told' ∧
      (.key key, depth + 1) :: told = Tree.memberEvents (depth + 1) members
        ++ (.endObject, depth + 1) :: told'

theorem ReadsValue.succ {n : Nat} (hitems : ReadsItems n)
    (hmembers : ReadsMembers n) : ReadsValue (n + 1) := by
  intro g depth t tokens told hn h
  cases t
  case openArray =>
      obtain ⟨inner, hinner, rfl⟩ := Grammar.goesOn_enter h
      rcases Grammar.tells_firstItem hinner with
        ⟨rest, told', rfl, htold, rfl⟩ | ⟨t, rest, rfl, ht, hgo⟩
      · have hlt : rest.length < (Token.closeArray :: rest).length + 1 :=
          Nat.lt_succ_of_lt (Nat.lt_succ_self _)
        exact ⟨.array [], ⟨rest, hlt⟩, told', by rw [Tree.read], htold, rfl⟩
      · have hlt : rest.length < n := Nat.lt_of_succ_lt_succ hn
        obtain ⟨items, behind, told', hread, htold, rfl⟩ :=
          hitems g depth t rest inner hlt hgo
        obtain ⟨hb, hread'⟩ := Tree.read_array ht hread
        refine ⟨.array items, ⟨behind.1, hb⟩, told', hread', htold, ?_⟩
        simp [Tree.events, Event.depths]
  case openObject =>
      obtain ⟨inner, hinner, rfl⟩ := Grammar.goesOn_enter h
      rcases Grammar.tells_firstKey hinner with
        ⟨rest, told', rfl, htold, rfl⟩ | ⟨key, rest, inner', rfl, hgo, rfl⟩
      · have hlt : rest.length < (Token.closeObject :: rest).length + 1 :=
          Nat.lt_succ_of_lt (Nat.lt_succ_self _)
        exact ⟨.object [], ⟨rest, hlt⟩, told', by rw [Tree.read], htold, rfl⟩
      · have hlt : rest.length < n := Nat.lt_of_succ_lt_succ hn
        obtain ⟨members, behind, told', hread, htold, hevents⟩ :=
          hmembers g depth key rest inner' hlt hgo
        obtain ⟨hb, hread'⟩ := Tree.read_object hread
        refine ⟨.object members, ⟨behind.1, hb⟩, told', hread', htold, ?_⟩
        rw [hevents]
        simp [Tree.events, Event.depths]
  case string | number | bool | null =>
      obtain ⟨told', htold, rfl⟩ := Option.map_eq_some_iff.mp h
      exact ⟨_, ⟨tokens, by simp⟩, told', by rw [Tree.read], htold, rfl⟩
  all_goals cases h

theorem ReadsItems.succ {n : Nat} (hvalue : ReadsValue (n + 1))
    (hitems : ReadsItems n) : ReadsItems (n + 1) := by
  intro g depth t tokens told hn h
  obtain ⟨item, ⟨rest, hrest⟩, told₁, hread, htold₁, rfl⟩ :=
    hvalue (g.push .itemEnd) (depth + 1) t tokens told hn h
  rcases Grammar.tells_itemEnd htold₁ with
    ⟨tail, rfl, hnext⟩ | ⟨tail, told', rfl, htold, rfl⟩
  · obtain ⟨t', tail, rfl, hgo⟩ := Grammar.tells_nextItem hnext
    have hlt : tail.length < n := by
      simp only [List.length_cons] at hrest
      omega
    obtain ⟨items, behind, told', hread', htold, rfl⟩ :=
      hitems g depth t' tail told₁ hlt hgo
    have hb : behind.1.length < (t :: tokens).length := by
      have hlt' := behind.2
      simp only [List.length_cons] at hrest hlt' ⊢
      omega
    refine ⟨item :: items, ⟨behind.1, hb⟩, told', ?_, htold, ?_⟩
    · rw [Tree.readItems, hread]
      simp only [hread']
    · simp [Tree.itemEvents]
  · have hb : tail.length < (t :: tokens).length := by
      simp only [List.length_cons] at hrest ⊢
      omega
    refine ⟨[item], ⟨tail, hb⟩, told', ?_, htold, ?_⟩
    · rw [Tree.readItems, hread]
    · simp [Tree.itemEvents]

theorem ReadsMembers.succ {n : Nat} (hvalue : ReadsValue (n + 1))
    (hmembers : ReadsMembers n) : ReadsMembers (n + 1) := by
  intro g depth key tokens told hn h
  obtain ⟨t, tokens, rfl, hgo⟩ := Grammar.tells_colon h
  simp only [List.length_cons] at hn
  obtain ⟨value, ⟨rest, hrest⟩, told₁, hread, htold₁, rfl⟩ :=
    hvalue (g.push .memberEnd) (depth + 1) t tokens told (by omega) hgo
  simp only [List.length_cons] at hrest
  rcases Grammar.tells_memberEnd htold₁ with
    ⟨tail, rfl, hnext⟩ | ⟨tail, told', rfl, htold, rfl⟩
  · obtain ⟨key', tail, told₂, rfl, hcolon, rfl⟩ :=
      Grammar.tells_nextKey hnext
    simp only [List.length_cons] at hrest
    obtain ⟨members, behind, told', hread', htold, hevents⟩ :=
      hmembers g depth key' tail told₂ (by omega) hcolon
    have hb : behind.1.length
        < (Token.string key :: .colon :: t :: tokens).length := by
      have hlt' := behind.2
      simp only [List.length_cons] at hlt' ⊢
      omega
    refine ⟨(key, value) :: members, ⟨behind.1, hb⟩, told', ?_, htold, ?_⟩
    · rw [Tree.readMembers, hread]
      simp only [hread']
    · rw [hevents]
      simp [Tree.memberEvents]
  · have hb : tail.length
        < (Token.string key :: .colon :: t :: tokens).length := by
      simp only [List.length_cons] at hrest ⊢
      omega
    refine ⟨[(key, value)], ⟨tail, hb⟩, told', ?_, htold, ?_⟩
    · rw [Tree.readMembers, hread]
    · simp [Tree.memberEvents]

theorem reads_all (n : Nat) :
    ReadsValue n ∧ ReadsItems n ∧ ReadsMembers n := by
  induction n with
  | zero =>
      exact ⟨fun _ _ _ _ _ h => absurd h (Nat.not_lt_zero _),
        fun _ _ _ _ _ h => absurd h (Nat.not_lt_zero _),
        fun _ _ _ _ _ h => absurd h (Nat.not_lt_zero _)⟩
  | succ n ih =>
      obtain ⟨-, hitems, hmembers⟩ := ih
      have hvalue := ReadsValue.succ hitems hmembers
      exact ⟨hvalue, ReadsItems.succ hvalue hitems,
        ReadsMembers.succ hvalue hmembers⟩

/-- Behind the value that makes up a text there is nothing. -/
theorem Grammar.tells_rootSeen {g : Grammar} (hf : g.frames = [])
    (hr : g.rootSeen = true) {depth : Nat} {tokens : List Token}
    {told : List (Event × Nat)} (h : g.tells depth tokens = some told) :
    tokens = [] ∧ told = [] := by
  obtain ⟨frames, height, hheight, rootSeen⟩ := g
  obtain rfl : frames = [] := hf
  obtain rfl : rootSeen = true := hr
  cases tokens with
  | nil => exact ⟨rfl, (Option.some.inj h).symm⟩
  | cons t rest => cases t <;> cases h

/-- The tokens of a text that is let pass are read as one tree, and all that
is told of them is what the tree tells. -/
theorem Tree.read_of_tells {tokens : List Token} {told : List (Event × Nat)}
    (h : Grammar.start.tells 0 tokens = some told) :
    ∃ tree hlt, Tree.read tokens = some (tree, ⟨[], hlt⟩) ∧
      told = tree.events 0 := by
  match tokens with
  | [] => cases h
  | t :: rest =>
      have hgo : Grammar.goesOn
          (Grammar.value { Grammar.start with rootSeen := true } t) 0 rest
            = some told := h
      obtain ⟨tree, ⟨behind, hlt⟩, told', hread, htold, rfl⟩ :=
        (reads_all (rest.length + 1)).1 _ 0 t rest told
          (Nat.lt_succ_self _) hgo
      obtain ⟨rfl, rfl⟩ := Grammar.tells_rootSeen rfl rfl htold
      exact ⟨tree, hlt, hread, List.append_nil _⟩

end Ridership.Json
