import Stencil.Proofs.Arguments
import Stencil.Proofs.Binding
import Stencil.Proofs.Escaping
import Stencil.Proofs.Sums

/-!
# Integers as literals

The text of an integer is its digits, after a minus sign if it is negative, and this is a literal of
expressions. It is read back as the integer as far as signed words reach; the literal of a greater
integer is read as the nearest double, which is finite.
-/

namespace Stencil

/-! ### Digits -/

namespace Decimal

/-- The literal for an integer. -/
def Literal.ofInteger (n : Int) : Literal := ⟨n < 0, Nat.toDigits 10 n.natAbs, [], []⟩

/-- The digits of a number denote the number. -/
theorem ofDigits_toDigits (n : Nat) : ofDigits (Nat.toDigits 10 n) = n :=
  Nat.ofDigitChars_ten_toDigits

/-- The literal of an integer denotes the integer. -/
theorem Literal.integer_ofInteger (n : Int) : (ofInteger n).integer = n := by
  simp only [integer, ofInteger, ofDigits_toDigits, decide_eq_true_eq]
  split <;> omega

/-- The text of an integer is its literal as it is written. -/
theorem toList_toString (n : Int) : (toString n).toList = (Literal.ofInteger n).text := by
  rw [Int.toString_eq_repr, Int.repr_eq_if, Literal.text, Literal.ofInteger]
  by_cases hn : 0 ≤ n
  · have habs : n.toNat = n.natAbs := by omega
    rw [if_pos hn, habs]
    simp [not_lt.mpr hn, signText, pointed]
  · have habs : (-n).toNat = n.natAbs := by omega
    rw [if_neg hn, habs]
    simp [not_le.mp hn, signText, pointed]

/-- A minus sign or a digit. -/
private abbrev IsIntegral (c : Char) : Prop := c = '-' ∨ c.isDigit = true

private theorem isIntegral_of_mem_toString {n : Int} {c : Char} (h : c ∈ (toString n).toList) :
    IsIntegral c := by
  rw [toList_toString, Literal.text, Literal.ofInteger] at h
  simp only [pointed, List.append_nil, List.mem_append] at h
  obtain h | h := h
  · cases hn : decide (n < 0) with
    | true =>
      rw [hn] at h
      exact .inl (List.mem_singleton.mp h)
    | false =>
      rw [hn] at h
      cases h
  · exact .inr (Nat.isDigit_of_mem_toDigits (by decide) (by decide) h)

/-- Digits alone are a literal that has nothing after them. -/
theorem takeUnsigned_of_isDigit (negative : Bool) {digits : List Char}
    (h : ∀ c ∈ digits, c.isDigit = true) :
    takeUnsigned negative digits = (⟨negative, digits, [], []⟩, []) := by
  rw [takeUnsigned, List.takeWhile_eq_self_iff.mpr h, List.dropWhile_eq_nil_iff.mpr h]
  rfl

/-- The literal of an integer is taken from its text, and nothing is left. -/
theorem takeLiteral?_toString (n : Int) :
    takeLiteral? (toString n).toList = some (.ofInteger n, []) := by
  have hdigits : ∀ c ∈ Nat.toDigits 10 n.natAbs, c.isDigit = true :=
    fun c hc ↦ Nat.isDigit_of_mem_toDigits (by decide) (by decide) hc
  have htake (negative : Bool) := takeUnsigned_of_isDigit negative hdigits
  rw [toList_toString, Literal.text, Literal.ofInteger]
  cases htext : Nat.toDigits 10 n.natAbs with
  | nil => exact absurd htext Nat.toDigits_ne_nil
  | cons c rest =>
    rw [htext] at hdigits htake
    have hc := hdigits c List.mem_cons_self
    have hminus : c ≠ '-' := by
      rintro rfl
      cases hc
    cases decide (n < 0) <;> simp [takeLiteral?, signText, pointed, hc, hminus, htake]

end Decimal

/-- Neither a word nor a string nor a space begins with a minus sign or a digit. -/
private theorem Lexeme.not_start_of_isIntegral {c : Char} (h : Decimal.IsIntegral c) :
    isWordStart c = false ∧ ¬(c = '"' ∨ c = '\'') ∧ isSpace c = false := by
  obtain rfl | h := h
  · decide
  · have hunder : c ≠ '_' := by
      rintro rfl
      cases h
    have hdollar : c ≠ '$' := by
      rintro rfl
      cases h
    have hletter : c.isAlpha = false := by
      simp only [Char.isDigit, Char.isAlpha, Char.isUpper, Char.isLower, Bool.and_eq_true,
        Bool.or_eq_false_iff, Bool.and_eq_false_iff, decide_eq_true_eq, decide_eq_false_iff_not,
        UInt32.le_iff_toNat_le, ge_iff_le, Char.toNat_val, Char.reduceToNat] at h ⊢
      omega
    refine ⟨by simp [isWordStart, hletter, hunder, hdollar], ?_, ?_⟩
    · rintro (rfl | rfl) <;> cases h
    · by_contra hspace
      have hdigit := Text.isDigit_of_isBlank (isBlank_of_isSpace (Bool.of_not_eq_false hspace))
      rw [h] at hdigit
      cases hdigit

/-- The text of an integer is one lexeme. -/
theorem Lexeme.ofText_toString (n : Int) :
    ofText (toString n).toList = .ok [.number (.ofInteger n)] := by
  have hliteral := Decimal.takeLiteral?_toString n
  cases htext : (toString n).toList with
  | nil =>
    rw [htext] at hliteral
    cases hliteral
  | cons c rest =>
    obtain ⟨hword, hquote, hspace⟩ :=
      not_start_of_isIntegral (Decimal.isIntegral_of_mem_toString (htext ▸ List.mem_cons_self))
    have htake : take c rest = .ok (.number (.ofInteger n), []) := by
      rw [htext] at hliteral
      rw [take, if_neg (by simp [hword]), if_neg hquote, hliteral]
    exact (ofText_cons_eq_ok hspace).mpr ⟨_, _, [], htake, by rw [ofText], rfl⟩

/-- The text of an integer needs no escape. -/
theorem Text.escapeHtml_toString (n : Int) : escapeHtml (toString n) = toString n := by
  have hplain : ∀ c ∈ (toString n).toList, htmlEntity c = [c] := by
    intro c hc
    have hintegral := Decimal.isIntegral_of_mem_toString hc
    unfold htmlEntity
    split
    · exact absurd hintegral (by decide)
    · exact absurd hintegral (by decide)
    · exact absurd hintegral (by decide)
    · exact absurd hintegral (by decide)
    · exact absurd hintegral (by decide)
    · rfl
  rw [escapeHtml, List.flatMap_congr hplain, List.flatMap_singleton', String.ofList_toList]

/-! ### Great integers -/

namespace Decimal

open Float.Model

/-- The exponent of bits below those of infinity is not the one of infinity. -/
private theorem unpackExponent_ne {bits : Nat} (h : bits < infinityBits) :
    @UnpackedFloat.unpackExponent Format.binary64 (BitVec.ofNat 64 bits) ≠ -1#11 := by
  have hbound : bits < 2047 * 2 ^ 52 := h
  have hbits : (BitVec.ofNat 64 bits).toNat = bits := by
    rw [BitVec.toNat_ofNat]
    omega
  have hall : (-1#11).toNat = 2047 := by decide
  intro heq
  have hnat := congrArg BitVec.toNat heq
  rw [UnpackedFloat.unpackExponent_def, BitVec.extractLsb'_toNat, hbits, hall,
    Nat.shiftRight_eq_div_pow] at hnat
  change bits / 2 ^ 52 % 2048 = 2047 at hnat
  omega

/-- Bits below those of infinity are a finite double. -/
theorem isFinite_ofBits {bits : Nat} (h : bits < infinityBits) :
    (Float.ofBits (UInt64.ofNat bits)).isFinite = true := by
  have hexponent := unpackExponent_ne h
  have hvalid : Format.Valid Format.binary64 (BitVec.ofNat 64 bits) :=
    ⟨fun heq _ ↦ absurd heq hexponent⟩
  -- The bits are unpacked and packed again before they are looked at.
  change (UnpackedFloat.unpack Format.binary64 (UnpackedFloat.pack Format.binary64
    (UnpackedFloat.unpack Format.binary64 (BitVec.ofNat 64 bits)))).isFinite = true
  rw [UnpackedFloat.pack_unpack_of_valid hvalid, UnpackedFloat.unpack]
  simp only [if_neg hexponent]
  split
  · split <;> rfl
  · rfl

/-- Rounding goes up by one at most. -/
theorem roundHalfEven_le (num den : Nat) : roundHalfEven num den ≤ num / den + 1 := by
  unfold roundHalfEven
  dsimp only
  split <;> omega

/-- Between the integers of 64 bits, the highest of them set, the doubles stand `2 ^ 11` apart. -/
theorem stepExponent_of_log2_eq {n : Nat} (h : 2 ^ 63 ≤ n) (h' : n < 2 ^ 64) :
    stepExponent n 1 = 1085 := by
  have hlog : n.log2 = 63 := (Nat.log2_eq_iff (by omega)).mpr ⟨h, h'⟩
  have hone : Nat.log2 1 = 0 := by decide
  have hexact : 1 * Nat.pow 2 63 ≤ n := by
    rw [one_mul]
    exact h
  rw [stepExponent, hlog, hone]
  simp [hexact]

theorem nearestBits_lt_infinityBits {n : Nat} (h : 2 ^ 63 ≤ n) (h' : n < 2 ^ 64) :
    nearestBits n 1 < infinityBits := by
  have hbits : nearestBits n 1 =
      Nat.min (1085 * hiddenBit + roundHalfEven n (1 * Nat.pow 2 11)) infinityBits := by
    rw [nearestBits, if_neg (by omega), stepExponent_of_log2_eq h h']
    rfl
  have hsteps : roundHalfEven n 2048 ≤ n / 2048 + 1 := roundHalfEven_le n 2048
  have hhidden : hiddenBit = 2 ^ 52 := rfl
  have hinfinity : infinityBits = 2047 * 2 ^ 52 := rfl
  rw [hbits]
  apply lt_of_le_of_lt (Nat.min_le_left _ _)
  change 1085 * hiddenBit + roundHalfEven n 2048 < infinityBits
  omega

/-- The double nearest to an integer past the signed words is finite. -/
theorem isFinite_ofInt {n : Int} (h : maxSigned < n) (h' : n ≤ maxInteger) :
    (ofInt n).isFinite = true := by
  unfold maxSigned at h
  unfold maxInteger at h'
  have hscaled : nearestBitsScaled n.natAbs 0 = nearestBits n.natAbs 1 := by
    rw [nearestBitsScaled, if_neg (by omega), if_neg (by decide), if_pos (by decide)]
    exact congrArg (nearestBits · 1) (Nat.mul_one _)
  have hsign : decide (n < 0) = false := by
    rw [decide_eq_false_iff_not]
    omega
  rw [ofInt, hsign]
  apply isFinite_ofBits
  change nearestBitsScaled n.natAbs 0 < infinityBits
  rw [hscaled]
  exact nearestBits_lt_infinityBits (by omega) (by omega)

end Decimal

/-! ### Reading -/

/-- The literal of an integer denotes the integer if it is a signed word, and else the nearest
double. -/
theorem Number.ofLiteral?_ofInteger (n : Int) :
    ofLiteral? isSigned (.ofInteger n) =
      if isSigned n then ofInt? n else ofFloat? (Decimal.ofInt n) := by
  have hwhole : (Decimal.Literal.ofInteger n).isInteger = true := rfl
  have hdouble : doubleOfLiteral? (.ofInteger n) = ofFloat? (Decimal.ofInt n) := by
    rw [doubleOfLiteral?, Decimal.Literal.digits, Decimal.Literal.exponent,
      Decimal.Literal.ofInteger, List.append_nil, Decimal.ofDigits_toDigits]
    rfl
  rw [ofLiteral?, hwhole, Decimal.Literal.integer_ofInteger, hdouble, Bool.true_and]

namespace Expression

/-- A number literal alone is an expression without filters. -/
theorem ofLexemes_number (l : Decimal.Literal) :
    ofLexemes [.number l] = (numberValue l).map fun v ↦ ⟨.literal v, []⟩ := by
  rw [ofLexemes, value]
  cases numberValue l with
  | error fault => rfl
  | ok v => simp [Except.map, calls]

/-- The text of an integer is read as what the literal of the integer denotes. -/
theorem parse_toString (n : Int) :
    parse (toString n) = (numberValue (.ofInteger n)).map fun v ↦ ⟨.literal v, []⟩ := by
  rw [parse, lexemes, Lexeme.ofText_toString]
  exact ofLexemes_number _

variable {n : Int}

/-- A signed word is read back from its text. -/
theorem parse_toString_of_isSigned (h : Number.isSigned n = true) :
    parse (toString n) =
      .ok ⟨.literal (.number (.integer n (Number.inRange_of_isSigned h))), []⟩ := by
  rw [parse_toString, numberValue, Number.ofLiteral?_ofInteger, if_pos h, Number.ofInt?,
    dif_pos (Number.inRange_of_isSigned h)]
  rfl

/-- A greater integer is read as a double. -/
theorem parse_toString_of_maxSigned_lt (h : maxSigned < n) (h' : n ≤ maxInteger) :
    parse (toString n) =
      .ok ⟨.literal (.number (.double (Decimal.ofInt n) (Decimal.isFinite_ofInt h h'))), []⟩ := by
  have hsigned : ¬Number.isSigned n = true := by
    simp [Number.isSigned, h]
  rw [parse_toString, numberValue, Number.ofLiteral?_ofInteger, if_neg hsigned, Number.ofFloat?,
    dif_pos (Decimal.isFinite_ofInt h h')]
  rfl

/-- The integers that are read back from their texts are the signed words. -/
theorem parse_toString_eq_iff (h : minInteger ≤ n ∧ n ≤ maxInteger) :
    parse (toString n) = .ok ⟨.literal (.number (.integer n h)), []⟩ ↔
      Number.isSigned n = true := by
  refine ⟨fun hread ↦ ?_, parse_toString_of_isSigned⟩
  by_contra hsigned
  have hgreat : maxSigned < n := by
    simpa [Number.isSigned, h.1] using hsigned
  rw [parse_toString_of_maxSigned_lt hgreat h.2] at hread
  cases hread

end Expression

/-! ### Rendering -/

namespace Session

variable {serial : Nat} {workingDirectory : Path} {o : Options} {fs : FileSystem}
  {commands : List Command}

/-- At any point of every session the output of code without filters compiles, and renders the value
of the code. -/
theorem exists_render_shown {code : String} {base : Expr}
    (h : Expression.parse code = .ok ⟨base, []⟩) :
    let s := (start serial workingDirectory o fs).after commands
    ∃ t, (s.engine.compile s.files (Expression.shown code)).1 = .ok t ∧
      ∀ scope calls, t.render scope calls =
        (.ok (if s.engine.registry.autoescape then Text.escapeHtml (base.evaluate scope).display
          else (base.evaluate scope).display), calls) := by
  intro s
  obtain ⟨span, hnodes⟩ := Node.parse_shown s.engine.registry h
  have hsettles := settles_of_loadsOf_eq_nil rfl hnodes rfl fun _ ↦ .error .filesUnavailable
  rw [Node.compileAll_output rfl] at hsettles
  obtain ⟨t, hout, hregistry, hbody⟩ := hsettles
  refine ⟨t, hout, fun scope calls ↦ ?_⟩
  rw [Template.render_output hbody rfl, hregistry]
  cases s.engine.registry.autoescape <;> rfl

/-- Integers come through as literals exactly as far as signed words reach. The text of an integer is
read as the integer, without filters, exactly when it is a signed word, and as the nearest double
when it is greater. So in every session, at any point of it, a literal for a signed word and a name
that stands for it render the same digits. -/
theorem integer_survives_iff {n : Int} (h : minInteger ≤ n ∧ n ≤ maxInteger) :
    let value := Value.number (.integer n h)
    let s := (start serial workingDirectory o fs).after commands
    (Expression.parse value.display = .ok ⟨.literal value, []⟩ ↔ Number.isSigned n = true) ∧
    (maxSigned < n → ∃ finite, Expression.parse value.display =
      .ok ⟨.literal (.number (.double (Decimal.ofInt n) finite)), []⟩) ∧
    (Number.isSigned n = true → ∀ name, RawTag.isName name.toList = true →
      Expression.keyword? name = none →
      ∃ literal named,
        (s.engine.compile s.files (Expression.shown value.display)).1 = .ok literal ∧
        (s.engine.compile s.files (Expression.shown name)).1 = .ok named ∧
        ∀ scope calls, literal.render scope calls = (.ok (toString n), calls) ∧
          (Fields.find? name scope = some value →
            named.render scope calls = (.ok (toString n), calls))) := by
  intro value s
  refine ⟨Expression.parse_toString_eq_iff h,
    fun hgreat ↦ ⟨_, Expression.parse_toString_of_maxSigned_lt hgreat h.2⟩,
    fun hsigned name hname hkeyword ↦ ?_⟩
  have hnamed : Expression.parse name = .ok ⟨.named name, []⟩ := by
    rw [Expression.parse_name hname, Expr.ofName, hkeyword]
  have hdigits (escaped : Bool) :
      (if escaped then Text.escapeHtml value.display else value.display) = toString n := by
    change (if escaped then Text.escapeHtml (toString n) else toString n) = _
    rw [Text.escapeHtml_toString, ite_self]
  obtain ⟨literal, hliteral, hrender⟩ :=
    exists_render_shown (Expression.parse_toString_of_isSigned hsigned)
  obtain ⟨named, hcompiled, hshown⟩ := exists_render_shown hnamed
  refine ⟨literal, named, hliteral, hcompiled, fun scope calls ↦ ⟨?_, fun hscope ↦ ?_⟩⟩
  · rw [hrender, Expr.evaluate, hdigits]
  · rw [hshown, Expr.evaluate, hscope, Option.getD_some, hdigits]

/-- The least integer is read back and renders its digits, and the greatest one is read as a double. -/
theorem integer_survives_extremes :
    let least := Value.number (.integer minInteger (by decide))
    let s := (start 0 ⟨"/"⟩ .default ⟨[], []⟩).after []
    Expression.parse "-9223372036854775808" = .ok ⟨.literal least, []⟩ ∧
    (∃ literal named,
      (s.engine.compile s.files "\x7b\x7b -9223372036854775808 \x7d\x7d").1 = .ok literal ∧
      (s.engine.compile s.files "\x7b\x7b x \x7d\x7d").1 = .ok named ∧
      ∀ scope calls, literal.render scope calls = (.ok "-9223372036854775808", calls) ∧
        (Fields.find? "x" scope = some least →
          named.render scope calls = (.ok "-9223372036854775808", calls))) ∧
    ∃ finite, Expression.parse "18446744073709551615" =
      .ok ⟨.literal (.number (.double (Decimal.ofInt maxInteger) finite)), []⟩ := by
  intro least s
  obtain ⟨hread, -, hrender⟩ :=
    @integer_survives_iff 0 ⟨"/"⟩ .default ⟨[], []⟩ [] minInteger (by decide)
  obtain ⟨-, hdouble, -⟩ :=
    @integer_survives_iff 0 ⟨"/"⟩ .default ⟨[], []⟩ [] maxInteger (by decide)
  exact ⟨hread.mpr (by decide), hrender (by decide) "x" (by decide) (by decide),
    hdouble (by decide)⟩

end Session

/-- The greatest integer is not read back from its text. -/
theorem Expression.parse_greatest_ne :
    parse (Value.number (.integer maxInteger (by decide))).display ≠
      .ok ⟨.literal (.number (.integer maxInteger (by decide))), []⟩ := by
  change parse (toString maxInteger) ≠ _
  rw [ne_eq, parse_toString_eq_iff]
  decide

end Stencil
