import Ridership.Json.Token

/-!
# What is told of some bytes is told of more

`Token.read` answers `unfinished` until the bytes at hand settle what they
begin with. The lemmas below walk every reader and show the other half of that
promise: an answer other than `unfinished`, given while more may come, is the
answer for the same bytes with anything behind them, and whether the text is
ending by then makes no difference. So the readers may be asked again as bytes
arrive, and the first answer is the last word.

An answer also stays inside the bytes it was given for: the bytes that it takes
were all there. Together the two facts are what lets a scanner take a token as
soon as it is told, and keep the rest for later.
-/

namespace Ridership.Json

/-- A lexeme takes at most `n` bytes after its first. The end of a text takes
none, so it lies in no bytes at all. -/
def Lexeme.within (n : Nat) : Lexeme → Prop
  | .unfinished => True
  | .token t more => t ≠ .endOfText ∧ more ≤ n
  | .fault _ _ _ more => more ≤ n

/-! ## Runs of bytes

A run that stops before the end of the bytes at hand stops there for good. -/

theorem drop_length_takeWhile {α : Type} (p : α → Bool) (l : List α) :
    l.drop (l.takeWhile p).length = l.dropWhile p := by
  conv => lhs; arg 2; rw [← List.takeWhile_append_dropWhile (p := p) (l := l)]
  exact List.drop_left' rfl

theorem takeWhile_append_of_stop {α : Type} {p : α → Bool} {l : List α}
    (h : l.dropWhile p ≠ []) (more : List α) :
    (l ++ more).takeWhile p = l.takeWhile p := by
  rw [List.takeWhile_append, if_neg]
  intro hall
  rw [← drop_length_takeWhile, hall, List.drop_length] at h
  exact h rfl

theorem dropWhile_append_of_stop {α : Type} {p : α → Bool} {l : List α}
    (h : l.dropWhile p ≠ []) (more : List α) :
    (l ++ more).dropWhile p = l.dropWhile p ++ more := by
  rw [List.dropWhile_append, if_neg]
  rw [List.isEmpty_iff]
  exact h

/-! ## Words -/

theorem Token.readWord_append {word : String} {t : Token} {bytes : List UInt8}
    (h : readWord false word t bytes ≠ .unfinished) (ending : Bool)
    (more : List UInt8) :
    readWord ending word t (bytes ++ more) = readWord false word t bytes := by
  unfold readWord at h ⊢
  simp only [drop_length_takeWhile] at h ⊢
  split at h
  · exact absurd rfl h
  · next hlen =>
      have hle : (Text.Utf8.encode word).length ≤ bytes.length := by
        rw [List.length_take] at hlen
        omega
      rw [List.take_append_of_le_length hle, if_neg hlen, if_neg hlen]
      split at h
      · next hw => rw [if_pos hw, if_pos hw]
      · next hw =>
          rw [if_neg hw, if_neg hw]
          split at h
          · exact absurd rfl h
          · next hend =>
              have hstop : bytes.dropWhile isLetter ≠ [] := by
                simpa using hend
              rw [takeWhile_append_of_stop hstop, if_neg hend, if_neg]
              rw [dropWhile_append_of_stop hstop]
              simp [hstop]

theorem Token.readWord_within (ending : Bool) (word : String) {t : Token}
    (ht : t ≠ .endOfText) (b : UInt8) (rest : List UInt8) :
    (readWord ending word t (b :: rest)).within rest.length := by
  unfold readWord
  simp only []
  split
  · trivial
  · next hlen =>
      split
      · rw [List.length_take, List.length_cons] at hlen
        exact ⟨ht, by omega⟩
      · split
        · trivial
        · have hle := (List.takeWhile_prefix isLetter (l := b :: rest)).length_le
          rw [List.length_cons] at hle
          simp only [Lexeme.within]
          omega

/-! ## Numbers

Each part of a number hands what follows it to the next part, so each lemma
needs the one for the part behind. -/

theorem NumberSpan.lastDigits_append {index : Nat} {bytes : List UInt8}
    (h : lastDigits false index bytes ≠ .unfinished) (ending : Bool)
    (more : List UInt8) :
    lastDigits ending index (bytes ++ more) = lastDigits false index bytes := by
  unfold lastDigits at h ⊢
  split at h
  · exact absurd rfl h
  · next hend =>
      have hstop : bytes.dropWhile isDigit ≠ [] := by simpa using hend
      rw [takeWhile_append_of_stop hstop, if_neg hend, if_neg]
      rw [dropWhile_append_of_stop hstop]
      simp [hstop]

theorem NumberSpan.exponent_append {index : Nat} {bytes : List UInt8}
    (h : exponent false index bytes ≠ .unfinished) (ending : Bool)
    (more : List UInt8) :
    exponent ending index (bytes ++ more) = exponent false index bytes := by
  match bytes with
  | [] => exact absurd rfl h
  | mark :: rest =>
      simp only [exponent, List.cons_append] at h ⊢
      split at h
      · next hmark =>
          rw [if_pos hmark, if_pos hmark]
          cases rest with
          | nil => exact absurd rfl h
          | cons sign rest =>
              simp only [List.cons_append] at h ⊢
              split at h
              · next hsign =>
                  rw [if_pos hsign, if_pos hsign]
                  cases rest with
                  | nil => exact absurd rfl h
                  | cons digit rest =>
                      simp only [List.cons_append] at h ⊢
                      split at h
                      · next hd =>
                          rw [if_pos hd, if_pos hd]
                          exact lastDigits_append h ending more
                      · next hd => rw [if_neg hd, if_neg hd]
              · next hsign =>
                  rw [if_neg hsign, if_neg hsign]
                  split at h
                  · next hd =>
                      rw [if_pos hd, if_pos hd]
                      exact lastDigits_append h ending more
                  · next hd => rw [if_neg hd, if_neg hd]
      · next hmark => rw [if_neg hmark, if_neg hmark]

/-- The digits before an exponent end where the exponent is settled. -/
theorem NumberSpan.exponent_behind_digits {index : Nat} {bytes : List UInt8}
    (h : exponent false index (bytes.dropWhile isDigit) ≠ .unfinished) :
    bytes.dropWhile isDigit ≠ [] := by
  intro hnil
  rw [hnil] at h
  exact h rfl

theorem NumberSpan.fraction_append {index : Nat} {bytes : List UInt8}
    (h : fraction false index bytes ≠ .unfinished) (ending : Bool)
    (more : List UInt8) :
    fraction ending index (bytes ++ more) = fraction false index bytes := by
  match bytes with
  | [] => exact absurd rfl h
  | point :: rest =>
      simp only [fraction, List.cons_append] at h ⊢
      split at h
      · next hpoint =>
          rw [if_pos hpoint, if_pos hpoint]
          cases rest with
          | nil => exact absurd rfl h
          | cons digit rest =>
              simp only [List.cons_append] at h ⊢
              split at h
              · next hd =>
                  have hstop := exponent_behind_digits h
                  rw [if_pos hd, if_pos hd, takeWhile_append_of_stop hstop,
                    dropWhile_append_of_stop hstop]
                  exact exponent_append h ending more
              · next hd => rw [if_neg hd, if_neg hd]
      · next hpoint =>
          rw [if_neg hpoint, if_neg hpoint]
          exact exponent_append h ending more

theorem NumberSpan.fraction_behind_digits {index : Nat} {bytes : List UInt8}
    (h : fraction false index (bytes.dropWhile isDigit) ≠ .unfinished) :
    bytes.dropWhile isDigit ≠ [] := by
  intro hnil
  rw [hnil] at h
  exact h rfl

theorem NumberSpan.integer_append {index : Nat} {bytes : List UInt8}
    (h : integer false index bytes ≠ .unfinished) (ending : Bool)
    (more : List UInt8) :
    integer ending index (bytes ++ more) = integer false index bytes := by
  match bytes with
  | [] => exact absurd rfl h
  | digit :: rest =>
      simp only [integer, List.cons_append] at h ⊢
      split at h
      · next hz =>
          rw [if_pos hz, if_pos hz]
          exact fraction_append h ending more
      · next hz =>
          rw [if_neg hz, if_neg hz]
          split at h
          · next hd =>
              have hstop := fraction_behind_digits h
              rw [if_pos hd, if_pos hd, takeWhile_append_of_stop hstop,
                dropWhile_append_of_stop hstop]
              exact fraction_append h ending more
          · next hd => rw [if_neg hd, if_neg hd]

theorem NumberSpan.of_cons {b : UInt8} (hb : b ≠ 0x2D) (ending : Bool)
    (bytes : List UInt8) :
    NumberSpan.of ending (b :: bytes) = integer ending 0 (b :: bytes) := by
  unfold NumberSpan.of
  split
  · next heq => exact absurd (List.cons.inj heq).1 hb
  · rfl

theorem NumberSpan.of_append {bytes : List UInt8}
    (h : NumberSpan.of false bytes ≠ .unfinished) (ending : Bool)
    (more : List UInt8) :
    NumberSpan.of ending (bytes ++ more) = NumberSpan.of false bytes := by
  match bytes with
  | [] => exact absurd rfl h
  | b :: rest =>
      by_cases hb : b = 0x2D
      · subst hb
        exact integer_append h ending more
      · rw [of_cons hb] at h
        rw [List.cons_append, of_cons hb, of_cons hb,
          ← List.cons_append]
        exact integer_append h ending more

/-- A span keeps inside `n` bytes: it ends there, or its fault is
one of them. -/
def NumberSpan.within (n : Nat) : NumberSpan → Prop
  | .unfinished => True
  | .complete length => length ≤ n
  | .fault _ index => index < n

theorem NumberSpan.within_mono {n m : Nat} (hle : n ≤ m) {span : NumberSpan}
    (h : span.within n) : span.within m := by
  cases span with
  | unfinished => trivial
  | complete length => exact Nat.le_trans h hle
  | fault fault index => exact Nat.lt_of_lt_of_le h hle

theorem digits_length_le (bytes : List UInt8) :
    (bytes.takeWhile isDigit).length + (bytes.dropWhile isDigit).length
      = bytes.length := by
  rw [← List.length_append, List.takeWhile_append_dropWhile]

theorem NumberSpan.lastDigits_within (ending : Bool) (index : Nat)
    (bytes : List UInt8) :
    (lastDigits ending index bytes).within (index + bytes.length) := by
  have hlen := digits_length_le bytes
  unfold lastDigits
  split
  · trivial
  · simp only [within]
    omega

theorem NumberSpan.exponent_within (ending : Bool) (index : Nat)
    (bytes : List UInt8) :
    (exponent ending index bytes).within (index + bytes.length) := by
  match bytes with
  | [] => cases ending <;> simp [exponent, within]
  | [mark] =>
      simp only [exponent]
      split <;> simp [within]
  | [mark, sign] =>
      simp only [exponent]
      split
      · split
        · trivial
        · split
          · exact within_mono (by simp) (lastDigits_within ending (index + 2) [])
          · simp [within]
      · simp [within]
  | mark :: sign :: digit :: rest =>
      simp only [exponent]
      split
      · split
        · split
          · refine within_mono ?_ (lastDigits_within ending (index + 3) rest)
            simp only [List.length_cons]
            omega
          · simp [within]
        · split
          · refine within_mono ?_
              (lastDigits_within ending (index + 2) (digit :: rest))
            simp only [List.length_cons]
            omega
          · simp [within]
      · simp [within]

theorem NumberSpan.fraction_within (ending : Bool) (index : Nat)
    (bytes : List UInt8) :
    (fraction ending index bytes).within (index + bytes.length) := by
  match bytes with
  | [] => cases ending <;> simp [fraction, within]
  | [point] =>
      simp only [fraction]
      split
      · trivial
      · exact exponent_within ending index [point]
  | point :: digit :: rest =>
      simp only [fraction]
      split
      · split
        · refine within_mono ?_ (exponent_within ending _ _)
          have hlen := digits_length_le rest
          simp only [List.length_cons]
          omega
        · simp [within]
      · exact exponent_within ending index (point :: digit :: rest)

theorem NumberSpan.integer_within (ending : Bool) (index : Nat)
    (bytes : List UInt8) :
    (integer ending index bytes).within (index + bytes.length) := by
  match bytes with
  | [] => trivial
  | digit :: rest =>
      simp only [integer]
      split
      · refine within_mono ?_ (fraction_within ending (index + 1) rest)
        simp only [List.length_cons]
        omega
      · split
        · refine within_mono ?_ (fraction_within ending _ _)
          have hlen := digits_length_le rest
          simp only [List.length_cons]
          omega
        · simp [within]

theorem NumberSpan.of_within (ending : Bool) (bytes : List UInt8) :
    (NumberSpan.of ending bytes).within bytes.length := by
  unfold NumberSpan.of
  split
  · next rest =>
      refine within_mono ?_ (integer_within ending 1 rest)
      simp only [List.length_cons]
      omega
  · exact within_mono (by omega) (integer_within ending 0 _)

theorem Token.readNumber_append {bytes : List UInt8}
    (h : readNumber false bytes ≠ .unfinished) (ending : Bool)
    (more : List UInt8) :
    readNumber ending (bytes ++ more) = readNumber false bytes := by
  have hin := NumberSpan.of_within false bytes
  have hspan : NumberSpan.of false bytes ≠ .unfinished := by
    intro hu
    unfold readNumber at h
    rw [hu] at h
    exact h rfl
  unfold readNumber
  rw [NumberSpan.of_append hspan ending more]
  cases hs : NumberSpan.of false bytes with
  | unfinished => exact absurd hs hspan
  | complete length =>
      rw [hs] at hin
      simp only []
      rw [List.take_append_of_le_length hin]
  | fault fault index => rfl

theorem Token.readNumber_within (ending : Bool) (b : UInt8)
    (rest : List UInt8) :
    (readNumber ending (b :: rest)).within rest.length := by
  have hin := NumberSpan.of_within ending (b :: rest)
  unfold readNumber
  cases hs : NumberSpan.of ending (b :: rest) with
  | unfinished => trivial
  | complete length =>
      rw [hs] at hin
      simp only [NumberSpan.within, List.length_cons] at hin
      exact ⟨Token.noConfusion, by omega⟩
  | fault fault index =>
      rw [hs] at hin
      simp only [NumberSpan.within, List.length_cons] at hin
      simp only [Lexeme.within]
      omega

/-! ## Strings -/

theorem StringState.read_append {s : StringState} {index : Nat}
    {bytes : List UInt8} (h : s.read index bytes ≠ .unfinished)
    (more : List UInt8) :
    s.read index (bytes ++ more) = s.read index bytes := by
  fun_induction StringState.read s index bytes with
  | case1 | case4 | case7 | case9 => exact absurd rfl h
  | case2 s index rest closed mark hmark =>
      rw [List.cons_append, StringState.read]
      simp [closed, hmark]
  | case3 s index rest closed hmark =>
      rw [List.cons_append, StringState.read]
      simp [closed, hmark]
  | case5 s index closed d₁ d₂ d₃ d₄ rest bad hcode hquote ih =>
      simp only [List.cons_append]
      rw [StringState.read]
      simp only [hcode, hquote, if_true, if_false]
      exact ih h
  | case6 s index closed d₁ d₂ d₃ d₄ unit hcode hpair slash u e₁ e₂ e₃ e₄ rest
      hquote ih =>
      simp only [List.cons_append]
      rw [StringState.read]
      simp only [hcode, hquote, hpair, if_true, if_false]
      exact ih h
  | case8 s index closed d₁ d₂ d₃ d₄ rest unit hcode hpair hquote ih =>
      simp only [List.cons_append]
      rw [StringState.read]
      simp only [hcode, hquote, hpair, if_true, if_false]
      exact ih h
  | case10 s index closed letter rest hletter c hc hquote ih =>
      simp only [List.cons_append]
      rw [StringState.read]
      simp only [hc, hquote, hletter, if_true, if_false]
      exact ih h
  | case11 s index closed letter rest hletter hc hquote ih =>
      simp only [List.cons_append]
      rw [StringState.read]
      simp only [hc, hquote, hletter, if_true, if_false]
      exact ih h
  | case12 s index b rest hquote hslash noted ih =>
      rw [List.cons_append, StringState.read]
      simp only [hquote, hslash, if_false]
      exact ih h

theorem StringState.read_within {s : StringState} {index n : Nat}
    {bytes : List UInt8} (hn : index + bytes.length ≤ n + 1) :
    (s.read index bytes).within n := by
  fun_induction StringState.read s index bytes with
  | case1 | case4 | case7 | case9 => trivial
  | case2 =>
      simp only [List.length_cons] at hn
      simp only [Lexeme.within]
      omega
  | case3 =>
      simp only [List.length_cons] at hn
      exact ⟨Token.noConfusion, by omega⟩
  | case5 | case6 | case8 | case10 | case11 | case12 =>
      rename_i ih
      simp only [List.length_cons] at hn
      exact ih (by omega)

theorem Token.readString_append {bytes : List UInt8}
    (h : readString bytes ≠ .unfinished) (more : List UInt8) :
    readString (bytes ++ more) = readString bytes := by
  rw [readString_eq] at h
  rw [readString_eq, readString_eq]
  exact StringState.read_append h more

theorem Token.readString_within (bytes : List UInt8) :
    (readString bytes).within bytes.length := by
  rw [readString_eq]
  exact StringState.read_within (by omega)

/-! ## All tokens -/

/-- What has been told of some bytes while more might come is told of the same
bytes with more behind them, be the text ending or not. -/
theorem Token.read_append {b : UInt8} {rest : List UInt8}
    (h : Token.read false b rest ≠ .unfinished) (ending : Bool)
    (more : List UInt8) :
    Token.read ending b (rest ++ more) = Token.read false b rest := by
  unfold Token.read at h ⊢
  split at h
  case h_1 | h_2 | h_3 | h_4 | h_5 | h_6 => rfl
  case h_7 => exact readString_append h more
  case h_8 | h_9 | h_10 => exact readWord_append h ending more
  case h_11 => rfl
  case h_12 =>
      split at h
      · next hnum =>
          rw [if_pos hnum, if_pos hnum]
          exact readNumber_append h ending more
      · next hnum => rw [if_neg hnum, if_neg hnum]

/-- A token lies in the bytes that it is read from. -/
theorem Token.read_within (ending : Bool) (b : UInt8) (rest : List UInt8) :
    (Token.read ending b rest).within rest.length := by
  unfold Token.read
  split
  case h_1 | h_2 | h_3 | h_4 | h_5 | h_6 =>
      exact ⟨Token.noConfusion, Nat.zero_le _⟩
  case h_7 => exact readString_within rest
  case h_8 | h_9 | h_10 =>
      exact readWord_within ending _ Token.noConfusion b rest
  case h_11 => trivial
  case h_12 =>
      split
      · exact readNumber_within ending b rest
      · exact Nat.zero_le _

/-! ## Blanks

Blanks are taken as they arrive, all but a carriage return at the end. Since
it stays, whether a return was just passed never has to be remembered from one
part of a text to the next. -/

theorem skipBlanks_return (ending returned : Bool) (p : Position)
    (rest : List UInt8) :
    skipBlanks ending returned p (0x0D :: rest) =
      if !ending && rest.isEmpty then (p, [0x0D])
      else skipBlanks ending true p.newLine rest := by
  rw [skipBlanks]
  rfl

theorem skipBlanks_other {b : UInt8} (hs : ¬(b = 0x20 ∨ b = 0x09))
    (hl : b ≠ 0x0A) (hc : b ≠ 0x0D) (ending returned : Bool) (p : Position)
    (rest : List UInt8) :
    skipBlanks ending returned p (b :: rest) = (p, b :: rest) := by
  rw [skipBlanks, if_neg hs, if_neg hl, if_neg hc]

theorem skipBlanks_append {returned : Bool} {p : Position}
    {bytes : List UInt8} (hr : returned = true → bytes ≠ []) (ending : Bool)
    (more : List UInt8) :
    skipBlanks ending returned p (bytes ++ more) =
      skipBlanks ending false (skipBlanks false returned p bytes).1
        ((skipBlanks false returned p bytes).2 ++ more) := by
  fun_induction skipBlanks false returned p bytes with
  | case1 returned p =>
      cases returned with
      | false => rfl
      | true => exact absurd rfl (hr rfl)
  | case2 returned p b rest hb ih =>
      rw [List.cons_append, skipBlanks, if_pos hb]
      exact ih (by simp)
  | case3 returned p rest hb ih =>
      rw [List.cons_append, skipBlanks, if_neg hb, if_pos rfl]
      exact ih (by simp)
  | case4 returned p rest hend hb hl =>
      have hrest : rest = [] := by simpa using hend
      subst hrest
      rw [List.singleton_append, skipBlanks_return, skipBlanks_return]
  | case5 returned p rest hend hb hl ih =>
      have hrest : rest ≠ [] := by simpa using hend
      rw [List.cons_append, skipBlanks_return, if_neg (by simp [hrest])]
      exact ih fun _ => hrest
  | case6 returned p b rest hs hl hc =>
      simp only [List.cons_append]
      rw [skipBlanks_other hs hl hc, skipBlanks_other hs hl hc]

/-- Behind the blanks there is none, but for a carriage return that waits. -/
theorem skipBlanks_head {ending returned : Bool} {p : Position} {b : UInt8}
    {bytes rest : List UInt8}
    (h : (skipBlanks ending returned p bytes).2 = b :: rest) :
    ¬(b = 0x20 ∨ b = 0x09) ∧ b ≠ 0x0A ∧
      (b = 0x0D → ending = false ∧ rest = []) := by
  fun_induction skipBlanks ending returned p bytes with
  | case1 => cases h
  | case2 | case3 | case5 =>
      rename_i ih
      exact ih h
  | case4 returned p tail hend =>
      obtain ⟨rfl, rfl⟩ := List.cons.inj h
      have hending : ending = false := by
        cases ending <;> simp_all
      exact ⟨by decide, by decide, fun _ => ⟨hending, rfl⟩⟩
  | case6 returned p c tail hs hl hc =>
      obtain ⟨rfl, rfl⟩ := List.cons.inj h
      exact ⟨hs, hl, fun hb => absurd hb hc⟩

end Ridership.Json
