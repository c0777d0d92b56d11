import Libaergo.Lib.Decimal
import Mathlib.Algebra.Order.Field.Rat
import Mathlib.Data.List.Count

/-!
# JSON texts

`Reads text v` says that a byte string is a JSON text in UTF-8 with the value `v`.  The reader goes from left
to right: `chars` reads a string behind its quote, with the escapes in it, `number` a number, and `value`
anything, one level deeper in its fuel for every bracket.  A string that stands for itself in a text has
nothing in it that must be escaped (`chars_plain`, `plain_of_chars_self`).
-/

namespace Libaergo.Lib.Json

/-- The values of JSON texts: numbers are rational, and strings are in UTF-8. -/
inductive Value
  | null
  | bool (b : Bool)
  | number (q : ℚ)
  | string (s : Bytes)
  | array (vs : List Value)
  | object (ms : List (Bytes × Value))

/-- The value of the member with this name, if there is just one. -/
def member (ms : List (Bytes × Value)) (name : Bytes) : Option Value :=
  match ms.filter fun m => m.1 = name with
  | [m] => some m.2
  | _ => none

/-! ### UTF-8 -/

def utf8Char (n : ℕ) : Bytes := String.utf8EncodeChar (Char.ofNat n)

/-- The bytes encode characters. -/
def Utf8 (bs : Bytes) : Prop := ∃ cs : List Char, bs = cs.flatMap String.utf8EncodeChar

/-! ### Strings -/

/-- What is between tokens. -/
def skip (bs : Bytes) : Bytes := bs.dropWhile fun c => c = 0x20 ∨ c = 0x09 ∨ c = 0x0a ∨ c = 0x0d

def hexValue (c : UInt8) : Option ℕ :=
  if 0x30 ≤ c ∧ c ≤ 0x39 then some (c.toNat - 0x30)
  else if 0x41 ≤ c ∧ c ≤ 0x46 then some (c.toNat - 0x37)
  else if 0x61 ≤ c ∧ c ≤ 0x66 then some (c.toNat - 0x57)
  else none

def hex4 : Bytes → Option (ℕ × Bytes)
  | a :: b :: c :: d :: t =>
    match hexValue a, hexValue b, hexValue c, hexValue d with
    | some a, some b, some c, some d => some (16 * (16 * (16 * a + b) + c) + d, t)
    | _, _, _, _ => none
  | _ => none

def simpleEscape (c : UInt8) : Option UInt8 :=
  if c = 0x22 ∨ c = 0x5c ∨ c = 0x2f then some c
  else if c = 0x62 then some 0x08
  else if c = 0x66 then some 0x0c
  else if c = 0x6e then some 0x0a
  else if c = 0x72 then some 0x0d
  else if c = 0x74 then some 0x09
  else none

/-- The second half of a character that is escaped in two. -/
def lowHalf (high : ℕ) : Bytes → Option (Bytes × Bytes)
  | 0x5c :: 0x75 :: t =>
    match hex4 t with
    | some (low, t) =>
      if 0xdc00 ≤ low ∧ low < 0xe000 then some (utf8Char (0x10000 + (high - 0xd800) * 0x400 + (low - 0xdc00)), t)
      else none
    | none => none
  | _ => none

/-- What is behind a backslash: the bytes it stands for, and the rest. -/
def escape : Bytes → Option (Bytes × Bytes)
  | [] => none
  | c :: t =>
    if c = 0x75 then
      match hex4 t with
      | some (n, t) =>
        if 0xd800 ≤ n ∧ n < 0xdc00 then lowHalf n t
        else if 0xdc00 ≤ n ∧ n < 0xe000 then none
        else some (utf8Char n, t)
      | none => none
    else (simpleEscape c).map fun u => ([u], t)

/-- What is behind the quote of a string: its bytes, and the rest behind the other quote. -/
def chars : ℕ → Bytes → Option (Bytes × Bytes)
  | 0, _ => none
  | _, [] => none
  | n + 1, c :: t =>
    if c = 0x22 then some ([], t)
    else if c = 0x5c then (escape t).bind fun (u, t) => (chars n t).map fun (s, t) => (u ++ s, t)
    else if c < 0x20 then none
    else (chars n t).map fun (s, t) => (c :: s, t)

/-! ### Numbers -/

def fraction : Bytes → Option (Bytes × Bytes)
  | 0x2e :: t =>
    if t.takeWhile (IsDigit ·) = [] then none else some (t.takeWhile (IsDigit ·), t.dropWhile (IsDigit ·))
  | bs => some ([], bs)

def magnitude (bs : Bytes) : Option (ℕ × Bytes) :=
  if bs.takeWhile (IsDigit ·) = [] then none
  else some (decNat (bs.takeWhile (IsDigit ·)), bs.dropWhile (IsDigit ·))

/-- The exponent behind its letter, if there is one. -/
def exponent : Bytes → Option (ℤ × Bytes)
  | [] => some (0, [])
  | c :: t =>
    if c = 0x65 ∨ c = 0x45 then
      match t with
      | 0x2d :: t => (magnitude t).map fun (n, t) => (-n, t)
      | 0x2b :: t => (magnitude t).map fun (n, t) => (n, t)
      | t => (magnitude t).map fun (n, t) => (n, t)
    else some (0, c :: t)

/-- A number without a sign: digits without a zero in front, decimals and an exponent. -/
def unsigned (bs : Bytes) : Option (ℚ × Bytes) :=
  let integer := bs.takeWhile (IsDigit ·)
  if integer = [] ∨ integer.head? = some 0x30 ∧ integer ≠ [0x30] then none
  else (fraction (bs.dropWhile (IsDigit ·))).bind fun (decimals, t) =>
    (exponent t).map fun (e, t) => (decimalValue integer decimals * 10 ^ e, t)

def number : Bytes → Option (ℚ × Bytes)
  | 0x2d :: t => (unsigned t).map fun (q, t) => (-q, t)
  | bs => unsigned bs

/-! ### Values -/

/-- The values of an array, up to its bracket. -/
def elements (read : Bytes → Option (Value × Bytes)) : ℕ → Bytes → Option (List Value × Bytes)
  | 0, _ => none
  | n + 1, bs => (read bs).bind fun (v, t) =>
    match skip t with
    | 0x2c :: t => (elements read n t).map fun (vs, t) => (v :: vs, t)
    | 0x5d :: t => some ([v], t)
    | _ => none

/-- The members of an object, up to its bracket. -/
def members (read : Bytes → Option (Value × Bytes)) : ℕ → Bytes → Option (List (Bytes × Value) × Bytes)
  | 0, _ => none
  | n + 1, bs =>
    match skip bs with
    | 0x22 :: t => (chars t.length t).bind fun (name, t) =>
      match skip t with
      | 0x3a :: t => (read t).bind fun (v, t) =>
        match skip t with
        | 0x2c :: t => (members read n t).map fun (ms, t) => ((name, v) :: ms, t)
        | 0x7d :: t => some ([(name, v)], t)
        | _ => none
      | _ => none
    | _ => none

/-- A word, of which the first letter has been read. -/
def word (letters : Bytes) (v : Value) (bs : Bytes) : Option (Value × Bytes) :=
  if letters <+: bs then some (v, bs.drop letters.length) else none

def value : ℕ → Bytes → Option (Value × Bytes)
  | 0, _ => none
  | n + 1, bs =>
    match skip bs with
    | [] => none
    | c :: t =>
      if c = 0x22 then (chars t.length t).map fun (s, t) => (.string s, t)
      else if c = 0x5b then
        match skip t with
        | 0x5d :: t => some (.array [], t)
        | t => (elements (value n) n t).map fun (vs, t) => (.array vs, t)
      else if c = 0x7b then
        match skip t with
        | 0x7d :: t => some (.object [], t)
        | t => (members (value n) n t).map fun (ms, t) => (.object ms, t)
      else if c = 0x6e then word [0x75, 0x6c, 0x6c] .null t
      else if c = 0x74 then word [0x72, 0x75, 0x65] (.bool true) t
      else if c = 0x66 then word [0x61, 0x6c, 0x73, 0x65] (.bool false) t
      else (number (c :: t)).map fun (q, t) => (.number q, t)

/-- **The text is JSON with this value.** -/
def Reads (text : Bytes) (v : Value) : Prop := Utf8 text ∧ ∃ n t, value n text = some (v, t) ∧ skip t = []

/-! ### Strings that stand for themselves -/

/-- Nothing in the string must be escaped. -/
def Plain (s : Bytes) : Prop := ∀ c ∈ s, c ≠ 0x22 ∧ c ≠ 0x5c ∧ 0x20 ≤ c

instance (s : Bytes) : Decidable (Plain s) := List.decidableBAll (fun c => c ≠ 0x22 ∧ c ≠ 0x5c ∧ 0x20 ≤ c) s

section Chars

variable {n k : ℕ} {bs s t u r : Bytes} {c : UInt8}

lemma utf8Char_length (n : ℕ) : (utf8Char n).length ≤ 4 := by
  rw [utf8Char, String.length_utf8EncodeChar]
  exact Char.utf8Size_le_four _

lemma hexValue_ne_quote (h : hexValue c = some n) : c ≠ 0x22 := by
  rintro rfl
  cases h

lemma hex4_eq (h : hex4 bs = some (n, t)) : ∃ e, bs = e ++ t ∧ e.length = 4 ∧ 0x22 ∉ e := by
  unfold hex4 at h
  split at h
  · next a b c d t' =>
    split at h
    · next ha hb hc hd =>
      obtain ⟨-, rfl⟩ := Prod.mk.inj (Option.some.inj h)
      refine ⟨[a, b, c, d], rfl, rfl, ?_⟩
      simp only [List.mem_cons, List.not_mem_nil, or_false, not_or]
      exact ⟨(hexValue_ne_quote ha).symm, (hexValue_ne_quote hb).symm, (hexValue_ne_quote hc).symm,
        (hexValue_ne_quote hd).symm⟩
    · cases h
  · cases h

/-- An escape is not shorter than what it stands for, and has no quote unless it stands for one. -/
lemma lowHalf_eq (h : lowHalf k bs = some (u, t)) :
    ∃ e, bs = e ++ t ∧ u.length ≤ e.length ∧ e.count 0x22 ≤ u.count 0x22 := by
  unfold lowHalf at h
  split at h
  · split at h
    · next hhex =>
      obtain ⟨e, rfl, hlen, hquote⟩ := hex4_eq hhex
      obtain ⟨-, h⟩ := Option.ite_none_right_eq_some.mp h
      obtain ⟨rfl, rfl⟩ := Prod.mk.inj (Option.some.inj h)
      refine ⟨0x5c :: 0x75 :: e, rfl, ?_, ?_⟩
      · exact (utf8Char_length _).trans (by rw [List.length_cons, List.length_cons, hlen]; omega)
      · rw [List.count_eq_zero_of_not_mem (by simp [hquote])]
        exact Nat.zero_le _
    · cases h
  · cases h

lemma escape_eq (h : escape bs = some (u, t)) :
    ∃ e, bs = e ++ t ∧ u.length ≤ e.length ∧ e.count 0x22 ≤ u.count 0x22 := by
  unfold escape at h
  split at h
  · cases h
  · next c bs =>
    split at h
    · next hu =>
      subst hu
      split at h
      · next n' t' hhex =>
        obtain ⟨e, rfl, hlen, hquote⟩ := hex4_eq hhex
        have hnone : (0x75 :: e).count 0x22 = 0 := List.count_eq_zero_of_not_mem (by simp [hquote])
        split at h
        · obtain ⟨e', rfl, hle, hcount⟩ := lowHalf_eq h
          refine ⟨0x75 :: e ++ e', by simp, ?_, ?_⟩
          · rw [List.length_append]
            omega
          · rw [List.count_append, hnone, Nat.zero_add]
            exact hcount
        · split at h
          · cases h
          · obtain ⟨rfl, rfl⟩ := Prod.mk.inj (Option.some.inj h)
            refine ⟨0x75 :: e, rfl, ?_, hnone.trans_le (Nat.zero_le _)⟩
            exact (utf8Char_length n').trans (by rw [List.length_cons, hlen]; omega)
      · cases h
    · obtain ⟨u', hu', h⟩ := Option.map_eq_some_iff.mp h
      obtain ⟨rfl, rfl⟩ := Prod.mk.inj h
      refine ⟨[c], rfl, le_rfl, ?_⟩
      by_cases hc : c = 0x22
      · subst hc
        obtain rfl := Option.some.inj hu'
        exact le_rfl
      · rw [List.count_eq_zero_of_not_mem (by simpa using Ne.symm hc)]
        exact Nat.zero_le _

/-- A string that is read comes from a text up to a quote, which is longer and has fewer quotes, unless the text
is the string itself. -/
lemma chars_eq (h : chars n bs = some (s, t)) :
    ∃ raw, bs = raw ++ 0x22 :: t ∧ s.length ≤ raw.length ∧ raw.count 0x22 ≤ s.count 0x22 ∧
      (s.length = raw.length → raw = s ∧ Plain s) := by
  induction n generalizing bs s t with
  | zero => cases h
  | succ n ih =>
    unfold chars at h
    split at h
    · cases h
    · cases h
    · next m c bs hm =>
      obtain rfl := Nat.succ.inj hm
      split at h
      · next hc =>
        subst hc
        obtain ⟨rfl, rfl⟩ := Prod.mk.inj (Option.some.inj h)
        exact ⟨[], rfl, le_rfl, le_rfl, fun _ => ⟨rfl, fun c hc => absurd hc List.not_mem_nil⟩⟩
      · next hquote =>
        split at h
        · next hc =>
          subst hc
          obtain ⟨⟨u, t'⟩, hu, h⟩ := Option.bind_eq_some_iff.mp h
          obtain ⟨⟨s', t''⟩, hs, h⟩ := Option.map_eq_some_iff.mp h
          obtain ⟨rfl, rfl⟩ := Prod.mk.inj h
          obtain ⟨e, rfl, hle, hcount⟩ := escape_eq hu
          obtain ⟨raw, rfl, hle', hcount', -⟩ := ih hs
          refine ⟨0x5c :: (e ++ raw), by simp, ?_, ?_, fun heq => ?_⟩
          · rw [List.length_cons, List.length_append, List.length_append]
            omega
          · rw [List.count_cons_of_ne (by decide), List.count_append, List.count_append]
            omega
          · rw [List.length_cons, List.length_append, List.length_append] at heq
            omega
        · next hback =>
          split at h
          · cases h
          · next hcontrol =>
            obtain ⟨⟨s', t''⟩, hs, h⟩ := Option.map_eq_some_iff.mp h
            obtain ⟨rfl, rfl⟩ := Prod.mk.inj h
            obtain ⟨raw, rfl, hle, hcount, hself⟩ := ih hs
            refine ⟨c :: raw, rfl, Nat.succ_le_succ hle, ?_, fun heq => ?_⟩
            · rw [List.count_cons_of_ne hquote, List.count_cons_of_ne hquote]
              exact hcount
            · obtain ⟨rfl, hplain⟩ := hself (Nat.succ.inj heq)
              refine ⟨rfl, fun b hb => ?_⟩
              rcases List.mem_cons.mp hb with rfl | hb
              · exact ⟨hquote, hback, UInt8.not_lt.mp hcontrol⟩
              · exact hplain b hb

/-- A plain string is read as it stands. -/
lemma chars_plain (h : Plain s) (hn : s.length < n) (t : Bytes) : chars n (s ++ 0x22 :: t) = some (s, t) := by
  induction s generalizing n with
  | nil =>
    obtain ⟨m, rfl⟩ := Nat.exists_eq_succ_of_ne_zero hn.ne'
    rfl
  | cons c s ih =>
    obtain ⟨m, rfl⟩ := Nat.exists_eq_succ_of_ne_zero (Nat.ne_of_gt (Nat.zero_lt_of_lt hn))
    obtain ⟨hquote, hback, hcontrol⟩ := h c List.mem_cons_self
    have hrest := ih (n := m) (fun b hb => h b (List.mem_cons_of_mem c hb)) (Nat.succ_lt_succ_iff.mp hn)
    rw [List.cons_append, chars, if_neg hquote, if_neg hback, if_neg (UInt8.not_lt.mpr hcontrol), hrest]
    rfl

/-- **A string that is read as itself is plain.** -/
theorem plain_of_chars_self (h : chars n (s ++ 0x22 :: t) = some (s, r)) : Plain s ∧ r = t := by
  obtain ⟨raw, heq, hle, hcount, hself⟩ := chars_eq h
  rcases Nat.lt_or_ge s.length raw.length with hlong | hshort
  · -- the text goes on behind the quote, which must be escaped
    have hprefix : s ++ [0x22] <+: raw := by
      refine List.prefix_of_prefix_length_le ⟨t, by simp⟩ ⟨0x22 :: r, heq.symm⟩ ?_
      rw [List.length_append, List.length_singleton]
      exact hlong
    have hmore := hprefix.sublist.count_le 0x22
    rw [List.count_append, List.count_singleton_self] at hmore
    omega
  · obtain ⟨rfl, hplain⟩ := hself (le_antisymm hle hshort)
    exact ⟨hplain, (List.cons.inj (List.append_cancel_left heq)).2.symm⟩

end Chars

/-! ### Integers -/

/-- A number ends in front of this. -/
def Ends (t : Bytes) : Prop := ∀ c ∈ t.head?, ¬ IsDigit c ∧ c ≠ 0x2e ∧ c ≠ 0x65 ∧ c ≠ 0x45

section Number

variable {t : Bytes}

lemma fraction_of_ends (h : Ends t) : fraction t = some ([], t) := by
  unfold fraction
  split
  · exact absurd rfl (h 0x2e rfl).2.1
  · rfl

lemma exponent_of_ends (h : Ends t) : exponent t = some (0, t) := by
  cases t with
  | nil => rfl
  | cons c t =>
    obtain ⟨-, -, hlower, hupper⟩ := h c rfl
    exact if_neg (not_or.mpr ⟨hlower, hupper⟩)

lemma unsigned_decText (n : ℕ) (h : Ends t) : unsigned (decText n ++ t) = some ((n : ℚ), t) := by
  have hdigits : ∀ c ∈ decText n, decide (IsDigit c) = true := fun c hc => decide_eq_true (isDigit_decText hc)
  have htake : (decText n ++ t).takeWhile (IsDigit ·) = decText n := by
    rw [List.takeWhile_append_of_pos hdigits]
    cases t with
    | nil => exact List.append_nil _
    | cons c t => rw [List.takeWhile_cons_of_neg (by simpa using (h c rfl).1), List.append_nil]
  have hdrop : (decText n ++ t).dropWhile (IsDigit ·) = t := by
    rw [List.dropWhile_append_of_pos hdigits]
    cases t with
    | nil => rfl
    | cons c t => rw [List.dropWhile_cons_of_neg (by simpa using (h c rfl).1)]
  have hzero : ¬ (decText n = [] ∨ (decText n).head? = some 0x30 ∧ decText n ≠ [0x30]) := by
    rintro (hnil | ⟨hhead, hne⟩)
    · exact decText_ne_nil n hnil
    · obtain ⟨ds, hds⟩ := List.head?_eq_some_iff.mp hhead
      rw [decText_zero_cons hds] at hds
      exact hne hds
  unfold unsigned
  rw [htake, hdrop, if_neg hzero, fraction_of_ends h, Option.bind_some]
  dsimp only
  rw [exponent_of_ends h, Option.map_some]
  simp [decimalValue]

lemma number_decText (n : ℕ) (h : Ends t) : number (decText n ++ t) = some ((n : ℚ), t) := by
  rw [← unsigned_decText n h]
  unfold number
  split
  · next heq =>
    obtain ⟨c, ds, hds⟩ := List.exists_cons_of_ne_nil (decText_ne_nil n)
    have hdigit := isDigit_decText (n := n) (hds ▸ List.mem_cons_self)
    rw [hds, List.cons_append] at heq
    rw [(List.cons.inj heq).1] at hdigit
    exact absurd hdigit (by decide)
  · rfl

lemma number_neg_decText (n : ℕ) (h : Ends t) : number (0x2d :: (decText n ++ t)) = some (-(n : ℚ), t) := by
  rw [number, unsigned_decText n h]
  rfl

end Number

/-! ### Values of a text -/

section Value

variable {n : ℕ} {c : UInt8} {bs t r name : Bytes} {v w : Value} {ms : List (Bytes × Value)} {vs : List Value}
  {read : Bytes → Option (Value × Bytes)}

/-- What a token begins with. -/
def Solid (c : UInt8) : Prop := c ≠ 0x20 ∧ c ≠ 0x09 ∧ c ≠ 0x0a ∧ c ≠ 0x0d

instance : DecidablePred Solid := fun c =>
  inferInstanceAs (Decidable (c ≠ 0x20 ∧ c ≠ 0x09 ∧ c ≠ 0x0a ∧ c ≠ 0x0d))

lemma skip_cons (h : Solid c) (t : Bytes) : skip (c :: t) = c :: t := by
  obtain ⟨h1, h2, h3, h4⟩ := h
  exact List.dropWhile_cons_of_neg (by simp [h1, h2, h3, h4])

lemma value_string (n : ℕ) (t : Bytes) :
    value (n + 1) (0x22 :: t) = (chars t.length t).map fun (s, t) => (.string s, t) := by
  rw [value, skip_cons (by decide)]
  rfl

lemma value_number (h : c = 0x2d ∨ IsDigit c) (n : ℕ) (t : Bytes) :
    value (n + 1) (c :: t) = (number (c :: t)).map fun (q, t) => (.number q, t) := by
  have hne : ∀ b, b ≠ 0x2d → ¬ IsDigit b → c ≠ b := by
    rintro b hminus hdigit rfl
    exact h.elim hminus hdigit
  have hsolid : Solid c :=
    ⟨hne _ (by decide) (by decide), hne _ (by decide) (by decide), hne _ (by decide) (by decide),
      hne _ (by decide) (by decide)⟩
  rw [value, skip_cons hsolid]
  dsimp only
  rw [if_neg (hne _ (by decide) (by decide)), if_neg (hne _ (by decide) (by decide)),
    if_neg (hne _ (by decide) (by decide)), if_neg (hne _ (by decide) (by decide)),
    if_neg (hne _ (by decide) (by decide)), if_neg (hne _ (by decide) (by decide))]

lemma value_array (h : Solid c) (hc : c ≠ 0x5d) (n : ℕ) (t : Bytes) :
    value (n + 1) (0x5b :: c :: t) = (elements (value n) n (c :: t)).map fun (vs, t) => (.array vs, t) := by
  rw [value, skip_cons (by decide)]
  dsimp only
  rw [if_neg (by decide), if_pos rfl, skip_cons h]
  split
  · next heq => exact absurd (List.cons.inj heq).1 hc
  · rfl

lemma value_object (h : Solid c) (hc : c ≠ 0x7d) (n : ℕ) (t : Bytes) :
    value (n + 1) (0x7b :: c :: t) = (members (value n) n (c :: t)).map fun (ms, t) => (.object ms, t) := by
  rw [value, skip_cons (by decide)]
  dsimp only
  rw [if_neg (by decide), if_neg (by decide), if_pos rfl, skip_cons h]
  split
  · next heq => exact absurd (List.cons.inj heq).1 hc
  · rfl

lemma elements_comma (h : read bs = some (v, 0x2c :: t)) :
    elements read (n + 1) bs = (elements read n t).map fun (vs, t) => (v :: vs, t) := by
  rw [elements, h, Option.bind_some]
  dsimp only
  rw [skip_cons (by decide)]
  rfl

lemma elements_close (h : read bs = some (v, 0x5d :: t)) : elements read (n + 1) bs = some ([v], t) := by
  rw [elements, h, Option.bind_some]
  dsimp only
  rw [skip_cons (by decide)]
  rfl

lemma elements_head (h : elements read n bs = some (v :: vs, r)) : ∃ t, read bs = some (v, t) := by
  cases n with
  | zero => cases h
  | succ n =>
    obtain ⟨⟨w, t⟩, hread, h⟩ := Option.bind_eq_some_iff.mp h
    dsimp only at h
    split at h
    · obtain ⟨⟨ws, t'⟩, -, h⟩ := Option.map_eq_some_iff.mp h
      obtain ⟨rfl, -⟩ := List.cons.inj (Prod.mk.inj h).1
      exact ⟨t, hread⟩
    · obtain ⟨rfl, -⟩ := List.cons.inj (Prod.mk.inj (Option.some.inj h)).1
      exact ⟨t, hread⟩
    · cases h

lemma members_name (h : Plain name) (n : ℕ) (t : Bytes) : members read (n + 1) (0x22 :: (name ++ 0x22 :: 0x3a :: t)) =
    (read t).bind fun (v, t) =>
      match skip t with
      | 0x2c :: t => (members read n t).map fun (ms, t) => ((name, v) :: ms, t)
      | 0x7d :: t => some ([(name, v)], t)
      | _ => none := by
  have hlen : name.length < (name ++ 0x22 :: 0x3a :: t).length := by simp
  have hchars := chars_plain h hlen (0x3a :: t)
  rw [members, skip_cons (by decide)]
  generalize name ++ 0x22 :: 0x3a :: t = text at hchars
  change (chars text.length text).bind _ = _
  rw [hchars, Option.bind_some]
  dsimp only
  rw [skip_cons (by decide)]
  rfl

lemma members_comma (h : Plain name) (hread : read t = some (v, 0x2c :: r)) :
    members read (n + 1) (0x22 :: (name ++ 0x22 :: 0x3a :: t)) =
      (members read n r).map fun (ms, t) => ((name, v) :: ms, t) := by
  rw [members_name h, hread, Option.bind_some]
  dsimp only
  rw [skip_cons (by decide)]
  rfl

lemma members_close (h : Plain name) (hread : read t = some (v, 0x7d :: r)) :
    members read (n + 1) (0x22 :: (name ++ 0x22 :: 0x3a :: t)) = some ([(name, v)], r) := by
  rw [members_name h, hread, Option.bind_some]
  dsimp only
  rw [skip_cons (by decide)]
  rfl

lemma members_head (h : Plain name) (hms : members read n (0x22 :: (name ++ 0x22 :: 0x3a :: t)) = some (ms, r)) :
    ∃ v t' ms', read t = some (v, t') ∧ ms = (name, v) :: ms' := by
  cases n with
  | zero => cases hms
  | succ n =>
    rw [members_name h] at hms
    obtain ⟨⟨v, t'⟩, hread, hms⟩ := Option.bind_eq_some_iff.mp hms
    dsimp only at hms
    split at hms
    · obtain ⟨⟨ms', t''⟩, -, hms⟩ := Option.map_eq_some_iff.mp hms
      exact ⟨v, t', ms', hread, (Prod.mk.inj hms).1.symm⟩
    · exact ⟨v, t', [], hread, (Prod.mk.inj (Option.some.inj hms)).1.symm⟩
    · cases hms

/-- A name that occurs once has the value of its first occurrence. -/
lemma member_head (h : member ((name, v) :: ms) name = some w) : v = w := by
  unfold member at h
  rw [List.filter_cons_of_pos (by simp)] at h
  split at h
  · next heq =>
    obtain ⟨rfl, -⟩ := List.cons.inj heq
    exact Option.some.inj h
  · cases h

lemma member_tail {name' : Bytes} (h : name' ≠ name) (v : Value) (ms : List (Bytes × Value)) :
    member ((name', v) :: ms) name = member ms name := by
  unfold member
  rw [List.filter_cons_of_neg (by simpa using h)]

lemma member_cons (h : ∀ m ∈ ms, m.1 ≠ name) (v : Value) : member ((name, v) :: ms) name = some v := by
  unfold member
  rw [List.filter_cons_of_pos (by simp), List.filter_eq_nil_iff.mpr fun m hm => by simpa using h m hm]

end Value

/-! ### Texts in UTF-8 -/

section Utf8

variable {as bs : Bytes} {c : UInt8}

lemma Utf8.append (ha : Utf8 as) (hb : Utf8 bs) : Utf8 (as ++ bs) := by
  obtain ⟨cs, rfl⟩ := ha
  obtain ⟨ds, rfl⟩ := hb
  exact ⟨cs ++ ds, List.flatMap_append.symm⟩

lemma utf8EncodeChar_ascii : ∀ n : Fin 128, String.utf8EncodeChar (Char.ofNat n) = [UInt8.ofNat n] := by decide

lemma utf8_ascii (h : bs.all (· < 0x80)) : Utf8 bs := by
  induction bs with
  | nil => exact ⟨[], rfl⟩
  | cons c bs ih =>
    rw [List.all_cons, Bool.and_eq_true, decide_eq_true_iff] at h
    have hlt : c.toNat < 128 := UInt8.lt_iff_toNat_lt.mp h.1
    have hchar := utf8EncodeChar_ascii ⟨c.toNat, hlt⟩
    rw [UInt8.ofNat_toNat] at hchar
    have hc : Utf8 [c] := ⟨[Char.ofNat c.toNat], by rw [List.flatMap_singleton, hchar]⟩
    exact hc.append (ih h.2)

end Utf8

end Libaergo.Lib.Json
