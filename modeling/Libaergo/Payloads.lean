import Libaergo.Arguments
import Libaergo.Lib.Json
import Libaergo.Socket.Transaction

/-!
# The payload of a call (`aergo.c`)

`aergo_call_smart_contract` and `aergo_query_smart_contract` write the arguments to a buffer of 512 bytes and
put the name of the function and the array into the text of a JSON object.  Nothing is escaped, and a signed
64-bit integer is written as an unsigned one: the object says what the caller passed just when nothing in its
strings must be escaped and no such integer is negative.
-/

namespace Libaergo.Arguments

open Lib

/-! ### The payload -/

/-- `{"Name":"` -/
def nameText : Bytes := [0x7b, 0x22, 0x4e, 0x61, 0x6d, 0x65, 0x22, 0x3a, 0x22]

/-- `","Args":` -/
def argsText : Bytes := [0x22, 0x2c, 0x22, 0x41, 0x72, 0x67, 0x73, 0x22, 0x3a]

/-- `snprintf(…, size + 32, …)` with the name and the arguments, if there are any. -/
def objectText (function args : Bytes) : Bytes :=
  let size := function.length + args.length
  if args = [] then (nameText ++ (function ++ [0x22, 0x7d])).take (size + 31)
  else (nameText ++ (function ++ (argsText ++ (args ++ [0x7d])))).take (size + 31)

def callInfo : Bytes → Bytes → Bytes := objectText

def queryInfo : Bytes → Bytes → Bytes := objectText

/-- The text in a buffer, up to its null byte. -/
def readCString (buf : Bytes) : Bytes := buf.takeWhile (· ≠ 0)

/-- `arguments_to_json` into `args[512]`: nothing if it returns false, and if it has written behind the end,
when nothing is known of the text. -/
def argsBuffer (args : List Argument) : Option Bytes :=
  match argumentsToJson 512 args with
  | (false, _) => none
  | (true, r) => if r.reach ≤ 512 then some (readCString r.text) else none

/-- **The payload of `aergo_call_smart_contract`** -/
def callPayload (function : CString) (args : List Argument) : Option Bytes :=
  (argsBuffer args).map (callInfo function.bytes)

/-- **The payload of `aergo_query_smart_contract`** -/
def queryPayload (function : CString) (args : List Argument) : Option Bytes :=
  if args = [] then some (queryInfo function.bytes []) else (argsBuffer args).map (queryInfo function.bytes)

/-! ### What it says -/

def upperHex (bs : Bytes) : Bytes :=
  bs.flatMap fun b => [b.toNat / 16, b.toNat % 16].map fun n => UInt8.ofNat (Nat.digitChar n).toUpper.toNat

/-- The value of an argument. -/
def Argument.meaning : Argument → Json.Value
  | .string z => .string z.bytes
  | .int v => .number v.toInt
  | .int64 v => .number v.toInt
  | .bytes bs _ => .string (upperHex bs)
  | _ => .null

/-- `Name` -/
def nameKey : Bytes := [0x4e, 0x61, 0x6d, 0x65]

/-- `Args` -/
def argsKey : Bytes := [0x41, 0x72, 0x67, 0x73]

/-- **The payload says what was passed**: it is a JSON object with this name and these arguments. -/
def Says (function : CString) (args : List Argument) (payload : Option Bytes) : Prop :=
  ∃ text ms, payload = some text ∧ Json.Reads text (.object ms) ∧
    Json.member ms nameKey = some (.string function.bytes) ∧
    Json.member ms argsKey = some (.array (args.map Argument.meaning))

/-- The arguments of the types `s`, `i`, `l` and `b`, with strings in UTF-8. -/
def Argument.Usual : Argument → Prop
  | .string z => Json.Utf8 z.bytes
  | .int _ | .int64 _ | .bytes _ _ => True
  | _ => False

/-- The arguments that are written as they are meant. -/
def Argument.Faithful : Argument → Prop
  | .string z => Json.Plain z.bytes
  | .int64 v => 0 ≤ v.toInt
  | _ => True

/-! ### The texts of arguments -/

section Texts

variable {a : Argument} {args : List Argument} {bs t : Bytes} {c : UInt8} {n k : ℕ}

lemma hexdigits_eq : ∀ n : Fin 16, hexdigits.getD n 0 = UInt8.ofNat (Nat.digitChar n).toUpper.toNat := by decide

lemma hexText_eq (bs : Bytes) : hexText bs = upperHex bs := by
  unfold hexText upperHex
  congr 1
  funext c
  have hlt := c.toNat_lt
  have hand : ∀ m : ℕ, m &&& 15 = m % 16 := fun m => Nat.and_two_pow_sub_one_eq_mod m 4
  have hhigh : ((c >>> 4) &&& 0xf).toNat = c.toNat / 16 := by
    rw [UInt8.toNat_and, UInt8.toNat_shiftRight]
    have hshift : c.toNat >>> (UInt8.toNat 4 % 8) = c.toNat / 16 := Nat.shiftRight_eq_div_pow _ 4
    rw [hshift]
    exact (hand _).trans (Nat.mod_eq_of_lt (by omega))
  have hlow : (c &&& 0xf).toNat = c.toNat % 16 := by
    rw [UInt8.toNat_and]
    exact hand _
  have h1 := hexdigits_eq ⟨c.toNat / 16, by omega⟩
  have h2 := hexdigits_eq ⟨c.toNat % 16, Nat.mod_lt _ (by decide)⟩
  rw [hhigh, hlow, h1, h2]
  rfl

lemma mem_hexText (h : c ∈ hexText bs) : c ∈ hexdigits := by
  obtain ⟨b, -, hb⟩ := List.mem_flatMap.mp h
  have hget : ∀ m : Fin 16, hexdigits.getD m 0 ∈ hexdigits := by decide
  have hand : ∀ b : UInt8, (b &&& 0xf).toNat < 16 := by
    intro b
    rw [UInt8.toNat_and]
    exact lt_of_le_of_lt Nat.and_le_right (by decide)
  rcases List.mem_cons.mp hb with rfl | hb
  · exact hget ⟨_, hand (b >>> 4)⟩
  · obtain rfl := List.mem_singleton.mp hb
    exact hget ⟨_, hand b⟩

lemma plain_hexText (bs : Bytes) : Json.Plain (hexText bs) := by
  have hall : Json.Plain hexdigits := by decide
  exact fun c hc => hall c (mem_hexText hc)

/-- A signed integer is written as it is just when it is not negative. -/
lemma toUInt64_eq_iff (v : Int64) : (v.toUInt64.toNat : ℤ) = v.toInt ↔ 0 ≤ v.toInt := by
  have hlt := v.toBitVec.isLt
  have hcond : v.toInt = if 2 * v.toUInt64.toNat < 2 ^ 64 then (v.toUInt64.toNat : ℤ)
      else (v.toUInt64.toNat : ℤ) - (2 ^ 64 : ℕ) := BitVec.toInt_eq_toNat_cond v.toBitVec
  have hnat : v.toUInt64.toNat < 2 ^ 64 := hlt
  split at hcond
  · omega
  · omega

lemma intText_cons (n : ℤ) : ∃ c u, intText n = c :: u ∧ (c = 0x2d ∨ IsDigit c) := by
  unfold intText
  obtain ⟨c, u, hcu⟩ := List.exists_cons_of_ne_nil (decText_ne_nil n.natAbs)
  split
  · exact ⟨0x2d, _, rfl, .inl rfl⟩
  · exact ⟨c, u, hcu, .inr (isDigit_decText (n := n.natAbs) (hcu ▸ List.mem_cons_self))⟩

lemma value_decText (n : ℕ) (h : Json.Ends t) :
    Json.value (k + 1) (decText n ++ t) = some (.number n, t) := by
  obtain ⟨c, u, hcu⟩ := List.exists_cons_of_ne_nil (decText_ne_nil n)
  have hdigit := isDigit_decText (n := n) (hcu ▸ List.mem_cons_self)
  have hnumber := Json.number_decText n h
  rw [hcu, List.cons_append] at hnumber ⊢
  rw [Json.value_number (.inr hdigit), hnumber]
  rfl

lemma value_intText (n : ℤ) (h : Json.Ends t) : Json.value (k + 1) (intText n ++ t) = some (.number n, t) := by
  unfold intText
  split
  · next hneg =>
    have habs : (n : ℚ) = -(n.natAbs : ℚ) := by
      have hint : n = -(n.natAbs : ℤ) := by omega
      exact_mod_cast hint
    rw [List.cons_append, Json.value_number (.inl rfl), Json.number_neg_decText _ h, habs]
    rfl
  · next hpos =>
    have hint : n = (n.natAbs : ℤ) := by omega
    have habs : (n : ℚ) = (n.natAbs : ℚ) := (congrArg (Int.cast : ℤ → ℚ) hint).trans (Int.cast_natCast _)
    rw [value_decText _ h, habs]

lemma value_quoted (hplain : Json.Plain bs) (k : ℕ) (t : Bytes) :
    Json.value (k + 1) (0x22 :: (bs ++ 0x22 :: t)) = some (.string bs, t) := by
  have hlen : bs.length < (bs ++ 0x22 :: t).length := by simp
  rw [Json.value_string, Json.chars_plain hplain hlen]
  rfl

lemma plain_of_value_quoted {r : Bytes} (h : Json.value (k + 1) (0x22 :: (bs ++ 0x22 :: t)) = some (.string bs, r)) :
    Json.Plain bs ∧ r = t := by
  rw [Json.value_string] at h
  obtain ⟨⟨s, t'⟩, hchars, h⟩ := Option.map_eq_some_iff.mp h
  obtain ⟨hs, rfl⟩ := Prod.mk.inj h
  obtain rfl := Json.Value.string.inj hs
  exact Json.plain_of_chars_self hchars

lemma value_text (ha : a.Usual) (hf : a.Faithful) (h : Json.Ends t) :
    Json.value (k + 1) (a.text ++ t) = some (a.meaning, t) := by
  cases a with
  | string z =>
    have htext : (Argument.string z).text ++ t = 0x22 :: (z.bytes ++ 0x22 :: t) := by simp [Argument.text]
    rw [htext]
    exact value_quoted hf k t
  | int v => exact value_intText v.toInt h
  | int64 v =>
    have hint : (v.toUInt64.toNat : ℚ) = (v.toInt : ℚ) := by exact_mod_cast (toUInt64_eq_iff v).mpr hf
    have hvalue := value_decText (k := k) v.toUInt64.toNat h
    rw [hint] at hvalue
    exact hvalue
  | bytes bs size =>
    have htext : (Argument.bytes bs size).text ++ t = 0x22 :: (hexText bs ++ 0x22 :: t) := by simp [Argument.text]
    have hmeaning : (Argument.bytes bs size).meaning = .string (hexText bs) := by rw [hexText_eq]; rfl
    rw [htext, hmeaning]
    exact value_quoted (plain_hexText bs) k t
  | double v => cases ha
  | other c hc => cases ha

lemma faithful_of_value {r : Bytes} (ha : a.Usual) (h : Json.Ends t)
    (hvalue : Json.value (k + 1) (a.text ++ t) = some (a.meaning, r)) : a.Faithful ∧ r = t := by
  have hrest : a.Faithful → r = t := fun hf =>
    (Prod.mk.inj (Option.some.inj (hvalue.symm.trans (value_text ha hf h)))).2
  cases a with
  | string z =>
    have htext : (Argument.string z).text ++ t = 0x22 :: (z.bytes ++ 0x22 :: t) := by simp [Argument.text]
    rw [htext] at hvalue
    exact plain_of_value_quoted hvalue
  | int v => exact ⟨trivial, hrest trivial⟩
  | int64 v =>
    have hnumber := (value_decText (k := k) v.toUInt64.toNat h).symm.trans hvalue
    have heq := Json.Value.number.inj (Prod.mk.inj (Option.some.inj hnumber)).1
    have hf : 0 ≤ v.toInt := (toUInt64_eq_iff v).mp (by exact_mod_cast heq)
    exact ⟨hf, hrest hf⟩
  | bytes bs size => exact ⟨trivial, hrest trivial⟩
  | double v => cases ha
  | other c hc => cases ha

lemma text_cons (ha : a.Usual) : ∃ c u, a.text = c :: u ∧ Json.Solid c ∧ c ≠ 0x5d := by
  have hnumber : ∀ c : UInt8, c = 0x2d ∨ IsDigit c → Json.Solid c ∧ c ≠ 0x5d := by
    rintro c (rfl | hdigit)
    · decide
    · refine ⟨⟨?_, ?_, ?_, ?_⟩, ?_⟩ <;>
      · rintro rfl
        exact absurd hdigit (by decide)
  cases a with
  | string z => exact ⟨0x22, _, rfl, by decide⟩
  | int v =>
    obtain ⟨c, u, hcu, hc⟩ := intText_cons v.toInt
    exact ⟨c, u, hcu, hnumber c hc⟩
  | int64 v =>
    obtain ⟨c, u, hcu⟩ := List.exists_cons_of_ne_nil (decText_ne_nil v.toUInt64.toNat)
    exact ⟨c, u, hcu, hnumber c (.inr (isDigit_decText (n := v.toUInt64.toNat) (hcu ▸ List.mem_cons_self)))⟩
  | bytes bs size => exact ⟨0x22, _, rfl, by decide⟩
  | double v => cases ha
  | other c hc => cases ha

end Texts

/-! ### The array -/

section Array

variable {a : Argument} {as : List Argument} {t r : Bytes} {n k : ℕ}

lemma ends_texts (as : List Argument) (t : Bytes) : Json.Ends (texts false as ++ 0x5d :: t) := by
  cases as with
  | nil =>
    intro c hc
    obtain rfl := Option.some.inj hc
    decide
  | cons b as =>
    intro c hc
    obtain rfl := Option.some.inj hc
    decide

lemma elements_texts (hu : ∀ b ∈ a :: as, b.Usual) (hf : ∀ b ∈ a :: as, b.Faithful) (hn : as.length < n) :
    Json.elements (Json.value (k + 1)) n (a.text ++ (texts false as ++ 0x5d :: t)) =
      some ((a :: as).map Argument.meaning, t) := by
  induction as generalizing a n with
  | nil =>
    obtain ⟨m, rfl⟩ := Nat.exists_eq_succ_of_ne_zero hn.ne'
    exact Json.elements_close (value_text (hu a List.mem_cons_self) (hf a List.mem_cons_self) (ends_texts [] t))
  | cons b as ih =>
    obtain ⟨m, rfl⟩ := Nat.exists_eq_succ_of_ne_zero (Nat.ne_of_gt (Nat.zero_lt_of_lt hn))
    have htext : texts false (b :: as) ++ 0x5d :: t = 0x2c :: (b.text ++ (texts false as ++ 0x5d :: t)) := by
      simp [texts, separator]
    have hread := value_text (k := k) (hu a List.mem_cons_self) (hf a List.mem_cons_self) (ends_texts (b :: as) t)
    have hrest := ih (n := m) (fun c hc => hu c (List.mem_cons_of_mem a hc))
      (fun c hc => hf c (List.mem_cons_of_mem a hc)) (Nat.lt_of_succ_lt_succ hn)
    rw [htext] at hread ⊢
    rw [Json.elements_comma hread, hrest]
    rfl

lemma faithful_of_elements (hu : ∀ b ∈ a :: as, b.Usual)
    (h : Json.elements (Json.value k) n (a.text ++ (texts false as ++ 0x5d :: t)) =
      some ((a :: as).map Argument.meaning, r)) : ∀ b ∈ a :: as, b.Faithful := by
  induction as generalizing a n r with
  | nil =>
    obtain ⟨t', hread⟩ := Json.elements_head h
    cases k with
    | zero => cases hread
    | succ k =>
      obtain ⟨hf, -⟩ := faithful_of_value (hu a List.mem_cons_self) (ends_texts [] t) hread
      intro b hb
      obtain rfl := List.mem_singleton.mp hb
      exact hf
  | cons b as ih =>
    obtain ⟨t', hread⟩ := Json.elements_head h
    cases k with
    | zero => cases hread
    | succ k =>
      obtain ⟨hf, rfl⟩ := faithful_of_value (hu a List.mem_cons_self) (ends_texts (b :: as) t) hread
      have htext : texts false (b :: as) ++ 0x5d :: t = 0x2c :: (b.text ++ (texts false as ++ 0x5d :: t)) := by
        simp [texts, separator]
      rw [htext] at h hread
      cases n with
      | zero => cases h
      | succ n =>
        rw [Json.elements_comma hread] at h
        obtain ⟨⟨vs, t'⟩, hrest, h⟩ := Option.map_eq_some_iff.mp h
        have hvs := (List.cons.inj (Prod.mk.inj h).1).2
        rw [hvs] at hrest
        intro c hc
        rcases List.mem_cons.mp hc with rfl | hc
        · exact hf
        · exact ih (fun d hd => hu d (List.mem_cons_of_mem a hd)) hrest c hc

end Array

/-! ### The object -/

section Object

variable {function : CString} {a : Argument} {as : List Argument} {name : Bytes} {n : ℕ}

def payloadText (name : Bytes) (args : List Argument) : Bytes :=
  nameText ++ (name ++ (argsText ++ (0x5b :: (texts true args ++ [0x5d]) ++ [0x7d])))

lemma payloadText_eq (name : Bytes) (a : Argument) (as : List Argument) : payloadText name (a :: as) =
    0x7b :: 0x22 :: (nameKey ++ 0x22 :: 0x3a :: (0x22 :: (name ++ 0x22 :: (0x2c :: (0x22 :: (argsKey ++ 0x22 :: 0x3a ::
      (0x5b :: (a.text ++ (texts false as ++ 0x5d :: [0x7d]))))))))) := by
  simp [payloadText, nameText, argsText, nameKey, argsKey, texts, separator]

lemma plain_nameKey : Json.Plain nameKey := by decide

lemma plain_argsKey : Json.Plain argsKey := by decide

lemma value_args (ha : a.Usual) (n : ℕ) (t : Bytes) : Json.value (n + 1) (0x5b :: (a.text ++ t)) =
    (Json.elements (Json.value n) n (a.text ++ t)).map fun (vs, t) => (.array vs, t) := by
  obtain ⟨c, u, hcu, hsolid, hc⟩ := text_cons ha
  rw [hcu, List.cons_append]
  exact Json.value_array hsolid hc n _

lemma value_payload (hu : ∀ b ∈ a :: as, b.Usual) (hname : Json.Plain name) (hf : ∀ b ∈ a :: as, b.Faithful) :
    Json.value (as.length + 4) (payloadText name (a :: as)) =
      some (.object [(nameKey, .string name), (argsKey, .array ((a :: as).map Argument.meaning))], []) := by
  have hfirst := value_quoted hname (as.length + 2)
    (0x2c :: (0x22 :: (argsKey ++ 0x22 :: 0x3a :: (0x5b :: (a.text ++ (texts false as ++ 0x5d :: [0x7d]))))))
  have hsecond : Json.value (as.length + 3) (0x5b :: (a.text ++ (texts false as ++ 0x5d :: [0x7d]))) =
      some (.array ((a :: as).map Argument.meaning), [0x7d]) := by
    rw [value_args (hu a List.mem_cons_self), elements_texts hu hf (Nat.lt_add_of_pos_right (by decide))]
    rfl
  rw [payloadText_eq, Json.value_object (by decide) (by decide), Json.members_comma plain_nameKey hfirst,
    Json.members_close plain_argsKey hsecond]
  rfl

lemma faithful_of_payload (hu : ∀ b ∈ a :: as, b.Usual) {ms : List (Bytes × Json.Value)} {t : Bytes}
    (h : Json.value n (payloadText name (a :: as)) = some (.object ms, t))
    (hname : Json.member ms nameKey = some (.string name))
    (hargs : Json.member ms argsKey = some (.array ((a :: as).map Argument.meaning))) :
    Json.Plain name ∧ ∀ b ∈ a :: as, b.Faithful := by
  rw [payloadText_eq] at h
  cases n with
  | zero => cases h
  | succ n =>
    rw [Json.value_object (by decide) (by decide)] at h
    obtain ⟨⟨ms', t'⟩, hms, h⟩ := Option.map_eq_some_iff.mp h
    obtain rfl := Json.Value.object.inj (Prod.mk.inj h).1
    obtain ⟨v, t₁, ms₁, hfirst, rfl⟩ := Json.members_head plain_nameKey hms
    obtain rfl := Json.member_head hname
    cases n with
    | zero => cases hfirst
    | succ n =>
      obtain ⟨hplain, rfl⟩ := plain_of_value_quoted hfirst
      rw [Json.members_comma plain_nameKey hfirst] at hms
      obtain ⟨⟨ms₂, t₂⟩, hrest, hms⟩ := Option.map_eq_some_iff.mp hms
      obtain rfl := (List.cons.inj (Prod.mk.inj hms).1).2
      obtain ⟨w, t₃, ms₃, hsecond, rfl⟩ := Json.members_head plain_argsKey hrest
      rw [Json.member_tail (by decide)] at hargs
      obtain rfl := Json.member_head hargs
      rw [value_args (hu a List.mem_cons_self)] at hsecond
      obtain ⟨⟨vs, t₄⟩, helements, hsecond⟩ := Option.map_eq_some_iff.mp hsecond
      obtain rfl := Json.Value.array.inj (Prod.mk.inj hsecond).1
      exact ⟨hplain, faithful_of_elements hu helements⟩

lemma utf8_text {a : Argument} (ha : a.Usual) : Json.Utf8 a.text ∧ (0 : UInt8) ∉ a.text := by
  have hascii : ∀ {bs : Bytes}, (bs.all fun c => c < 0x80 ∧ c ≠ 0) → Json.Utf8 bs ∧ (0 : UInt8) ∉ bs := by
    intro bs h
    have hall : ∀ c ∈ bs, c < 0x80 ∧ c ≠ 0 := fun c hc => of_decide_eq_true (List.all_eq_true.mp h c hc)
    exact ⟨Json.utf8_ascii (List.all_eq_true.mpr fun c hc => decide_eq_true (hall c hc).1),
      fun hmem => (hall 0 hmem).2 rfl⟩
  have hdigits : ∀ n, (decText n).all fun c => c < 0x80 ∧ c ≠ 0 := by
    intro n
    refine List.all_eq_true.mpr fun c hc => decide_eq_true ?_
    have hdigit := isDigit_iff.mp (isDigit_decText hc)
    constructor
    · exact UInt8.lt_iff_toNat_lt.mpr (show c.toNat < 0x80 by omega)
    · rintro rfl
      exact absurd hdigit.1 (by decide)
  cases a with
  | string z =>
    have hquote : Json.Utf8 [0x22] ∧ (0 : UInt8) ∉ [(0x22 : UInt8)] := hascii (by decide)
    refine ⟨hquote.1.append (Json.Utf8.append ha hquote.1), fun hmem => ?_⟩
    rcases List.mem_cons.mp hmem with hzero | hmem
    · cases hzero
    · rcases List.mem_append.mp hmem with hmem | hmem
      · exact z.noNull hmem
      · exact hquote.2 hmem
  | int v =>
    refine hascii ?_
    change (intText v.toInt).all _
    unfold intText
    split
    · rw [List.all_cons, hdigits]
      rfl
    · exact hdigits _
  | int64 v => exact hascii (hdigits v.toUInt64.toNat)
  | bytes bs size =>
    have hquote : [(0x22 : UInt8)].all fun c => c < 0x80 ∧ c ≠ 0 := by decide
    have hhex : (hexText bs).all fun c => c < 0x80 ∧ c ≠ 0 := by
      have hdigits : hexdigits.all fun c => c < 0x80 ∧ c ≠ 0 := by decide
      exact List.all_eq_true.mpr fun c hc => List.all_eq_true.mp hdigits c (mem_hexText hc)
    refine hascii ?_
    change (0x22 :: (hexText bs ++ [0x22])).all _
    rw [List.all_cons, List.all_append, hhex, hquote]
    rfl
  | double v => cases ha
  | other c hc => cases ha

lemma utf8_texts {args : List Argument} (hu : ∀ a ∈ args, a.Usual) (first : Bool) :
    Json.Utf8 (texts first args) ∧ (0 : UInt8) ∉ texts first args := by
  induction args generalizing first with
  | nil => exact ⟨⟨[], rfl⟩, List.not_mem_nil⟩
  | cons a as ih =>
    obtain ⟨hutf, hzero⟩ := utf8_text (hu a List.mem_cons_self)
    obtain ⟨hutf', hzero'⟩ := ih (fun b hb => hu b (List.mem_cons_of_mem a hb)) false
    have hsep : Json.Utf8 (separator first) ∧ (0 : UInt8) ∉ separator first := by
      cases first with
      | false => exact ⟨Json.utf8_ascii (by decide), by decide⟩
      | true => exact ⟨⟨[], rfl⟩, List.not_mem_nil⟩
    refine ⟨hsep.1.append (hutf.append hutf'), fun hmem => ?_⟩
    rcases List.mem_append.mp hmem with hmem | hmem
    · exact hsep.2 hmem
    · rcases List.mem_append.mp hmem with hmem | hmem
      · exact hzero hmem
      · exact hzero' hmem

/-- **The object says what was passed just when nothing in it must be escaped and no integer has lost its
sign.** -/
lemma says_payloadText_iff {args : List Argument} (hne : args ≠ []) (hname : Json.Utf8 function.bytes)
    (hu : ∀ b ∈ args, b.Usual) : Says function args (some (payloadText function.bytes args)) ↔
      Json.Plain function.bytes ∧ ∀ b ∈ args, b.Faithful := by
  obtain ⟨a, as, rfl⟩ := List.exists_cons_of_ne_nil hne
  constructor
  · rintro ⟨text, ms, htext, ⟨-, n, t, hvalue, -⟩, hms, hargs⟩
    obtain rfl := Option.some.inj htext
    exact faithful_of_payload hu hvalue hms hargs
  · rintro ⟨hplain, hf⟩
    have hutf : Json.Utf8 (payloadText function.bytes (a :: as)) := by
      refine (Json.utf8_ascii (by decide)).append (hname.append ((Json.utf8_ascii (by decide)).append ?_))
      have hbracket : Json.Utf8 [0x5b] := Json.utf8_ascii (by decide)
      have hclose : Json.Utf8 [0x5d] := Json.utf8_ascii (by decide)
      exact (hbracket.append ((utf8_texts hu true).1.append hclose)).append (Json.utf8_ascii (by decide))
    refine ⟨_, _, rfl, ⟨hutf, as.length + 4, [], value_payload hu hplain hf, rfl⟩, ?_, ?_⟩
    · refine Json.member_cons (fun m hm => ?_) _
      obtain rfl := List.mem_singleton.mp hm
      exact (by decide : argsKey ≠ nameKey)
    · rw [Json.member_tail (by decide)]
      exact Json.member_cons (fun m hm => absurd hm List.not_mem_nil) _

end Object

/-! ### The buffer of 512 bytes -/

section Buffer

variable {function : CString} {args : List Argument}

lemma uncut_of_usual (hu : ∀ a ∈ args, a.Usual) : Uncut 512 args := by
  intro a ha _
  have hroom : room 512 true 1 = 510 := rfl
  have hdigits : ∀ n, n < 10 ^ 20 → (decText n).length ≤ 20 := fun n hn => (decText_length_le_iff (by decide)).mpr hn
  have hshort : a.isNumber = true → a.text.length ≤ 21 := by
    intro hnumber
    cases a with
    | int v =>
      have hlo := v.le_toInt
      have hhi := v.toInt_lt
      have habs := hdigits v.toInt.natAbs (by omega)
      change (intText v.toInt).length ≤ 21
      unfold intText
      split
      · rw [List.length_cons]
        omega
      · omega
    | int64 v =>
      have hlt : v.toUInt64.toNat < 2 ^ 64 := v.toUInt64.toNat_lt
      exact (hdigits v.toUInt64.toNat (by omega)).trans (by decide)
    | double v => cases hu _ (List.mem_of_mem_head? ha)
    | string z | bytes bs size | other c hc => cases hnumber
  rw [Argument.cut, hroom, decide_eq_false_iff_not]
  rintro ⟨hnumber, hlong⟩
  have hle := hshort hnumber
  omega

lemma readCString_append {bs : Bytes} (h : (0 : UInt8) ∉ bs) (t : Bytes) : readCString (bs ++ 0 :: t) = bs := by
  have hall : ∀ c ∈ bs, decide (c ≠ 0) = true := by
    intro c hc
    refine decide_eq_true ?_
    rintro rfl
    exact h hc
  unfold readCString
  rw [List.takeWhile_append_of_pos hall, List.takeWhile_cons_of_neg (by simp), List.append_nil]

/-- The buffer has the array of the arguments if they fit, and otherwise nothing is known of it. -/
lemma argsBuffer_eq (hu : ∀ a ∈ args, a.Usual) (hret : (argumentsToJson 512 args).1 = true) :
    (Fits 512 true 1 args → argsBuffer args = some (0x5b :: (texts true args ++ [0x5d]))) ∧
      (¬ Fits 512 true 1 args → argsBuffer args = none) := by
  obtain ⟨hreach, hwhole⟩ := @renderAll_uncut ⟨[0x5b], 1⟩ 512 true args (by decide) (by decide) le_rfl (by decide)
    fun _ => ⟨rfl, uncut_of_usual hu⟩
  have hroom : room 512 true (Rendering.text ⟨[0x5b], 1⟩).length = (512 : ℤ) - 2 := rfl
  have hcast : ((512 : ℕ) : ℤ) = 512 := rfl
  have hone : (Rendering.text ⟨[0x5b], 1⟩).length = 1 := rfl
  rw [hroom, hcast, hone] at hreach hwhole
  unfold argsBuffer
  rw [argumentsToJson_eq] at hret ⊢
  generalize renderAll 512 true (512 - 2) ⟨[0x5b], 1⟩ args = out at hret hreach hwhole
  obtain ⟨htaken, htext, -⟩ := close_true hret
  generalize close out = closed at hret hreach htext
  obtain ⟨taken, r⟩ := closed
  subst hret
  dsimp only at hreach htext ⊢
  constructor
  · intro hfits
    have hzero : (0 : UInt8) ∉ 0x5b :: (texts true args ++ [0x5d]) := by
      have htexts := (utf8_texts hu true).2
      simp [htexts]
    have hbuf : r.text = (0x5b :: (texts true args ++ [0x5d])) ++ 0 :: [] := by
      rw [htext, hwhole hfits htaken]
      simp
    rw [if_pos (hreach.mpr hfits), hbuf, readCString_append hzero]
  · intro hfits
    rw [if_neg fun hle => hfits (hreach.mp hle)]

lemma objectText_eq (name : Bytes) (args : List Argument) :
    objectText name (0x5b :: (texts true args ++ [0x5d])) = payloadText name args := by
  unfold objectText
  dsimp only
  rw [if_neg (List.cons_ne_nil _ _), payloadText]
  refine List.take_of_length_le ?_
  simp only [nameText, argsText, List.length_append, List.length_cons, List.length_nil]
  omega

lemma says_argsBuffer_iff (hname : Json.Utf8 function.bytes) (hne : args ≠ []) (hu : ∀ a ∈ args, a.Usual)
    (hret : (argumentsToJson 512 args).1 = true) :
    Says function args ((argsBuffer args).map (objectText function.bytes)) ↔
      Fits 512 true 1 args ∧ Json.Plain function.bytes ∧ ∀ a ∈ args, a.Faithful := by
  obtain ⟨hin, hout⟩ := argsBuffer_eq hu hret
  by_cases hfits : Fits 512 true 1 args
  · rw [hin hfits, Option.map_some, objectText_eq, says_payloadText_iff hne hname hu]
    exact (and_iff_right hfits).symm
  · rw [hout hfits]
    refine iff_of_false ?_ fun h => hfits h.1
    rintro ⟨text, ms, hnone, -⟩
    cases hnone

end Buffer

/-- **The payloads of `aergo_call_smart_contract` and `aergo_query_smart_contract` say what was passed** just
when the arguments fit in the buffer, nothing in the strings must be escaped and no signed integer is
negative. -/
theorem says_iff (function : CString) (args : List Argument) (hname : Json.Utf8 function.bytes) (hne : args ≠ [])
    (hu : ∀ a ∈ args, a.Usual) (hret : (argumentsToJson 512 args).1 = true) :
    (Says function args (callPayload function args) ↔
      Fits 512 true 1 args ∧ Json.Plain function.bytes ∧ ∀ a ∈ args, a.Faithful) ∧
    (Says function args (queryPayload function args) ↔
      Fits 512 true 1 args ∧ Json.Plain function.bytes ∧ ∀ a ∈ args, a.Faithful) := by
  have hquery : queryPayload function args = (argsBuffer args).map (objectText function.bytes) := if_neg hne
  have hiff := says_argsBuffer_iff hname hne hu hret
  exact ⟨hiff, hquery ▸ hiff⟩

theorem says_iff_five :
    (Says ⟨[0x66], by decide⟩ [.int 5] (callPayload ⟨[0x66], by decide⟩ [.int 5]) ↔
      Fits 512 true 1 [.int 5] ∧ Json.Plain [0x66] ∧ ∀ a ∈ [Argument.int 5], a.Faithful) ∧
    (Says ⟨[0x66], by decide⟩ [.int 5] (queryPayload ⟨[0x66], by decide⟩ [.int 5]) ↔
      Fits 512 true 1 [.int 5] ∧ Json.Plain [0x66] ∧ ∀ a ∈ [Argument.int 5], a.Faithful) :=
  says_iff ⟨[0x66], by decide⟩ [.int 5] (Json.utf8_ascii (by decide)) (List.cons_ne_nil _ _)
    (fun a ha => by obtain rfl := List.mem_singleton.mp ha; exact trivial) (by decide +kernel)

/-- **A quote in a string ends it, and -1 becomes 2^64 - 1**: `{"Name":"f","Args":["""]}` and
`{"Name":"f","Args":[18446744073709551615]}`. -/
theorem quote_and_sign_lost :
    callPayload ⟨[0x66], by decide⟩ [.string ⟨[0x22], by decide⟩] =
        some (nameText ++ [0x66] ++ argsText ++ [0x5b, 0x22, 0x22, 0x22, 0x5d, 0x7d]) ∧
      ¬ Says ⟨[0x66], by decide⟩ [.string ⟨[0x22], by decide⟩]
        (callPayload ⟨[0x66], by decide⟩ [.string ⟨[0x22], by decide⟩]) ∧
      callPayload ⟨[0x66], by decide⟩ [.int64 (-1)] =
        some (nameText ++ [0x66] ++ argsText ++ (0x5b :: (decText 18446744073709551615 ++ [0x5d, 0x7d]))) ∧
      ¬ Says ⟨[0x66], by decide⟩ [.int64 (-1)] (callPayload ⟨[0x66], by decide⟩ [.int64 (-1)]) := by
  have hname : Json.Utf8 [0x66] := Json.utf8_ascii (by decide)
  have hquote : Json.Utf8 [0x22] := Json.utf8_ascii (by decide)
  refine ⟨by decide +kernel, fun h => ?_, by decide +kernel, fun h => ?_⟩
  · obtain ⟨-, -, hf⟩ := (says_argsBuffer_iff hname (List.cons_ne_nil _ _)
      (fun a ha => by obtain rfl := List.mem_singleton.mp ha; exact hquote) (by decide +kernel)).mp h
    exact (hf _ List.mem_cons_self 0x22 List.mem_cons_self).1 rfl
  · obtain ⟨-, -, hf⟩ := (says_argsBuffer_iff hname (List.cons_ne_nil _ _)
      (fun a ha => by obtain rfl := List.mem_singleton.mp ha; exact trivial) (by decide +kernel)).mp h
    have hsign : (0 : ℤ) ≤ (-1 : Int64).toInt := hf _ List.mem_cons_self
    exact absurd hsign (by decide)

/-! ### The payload in the transaction -/

lemma callInfo_eq (function : Bytes) (args : Option Bytes) :
    Libaergo.callInfo function args = callInfo function (args.getD []) := by
  unfold Libaergo.callInfo callInfo objectText
  by_cases hargs : args.getD [] = []
  · rw [if_neg (not_not.mpr hargs), hargs]
    dsimp only
    rw [if_pos rfl, List.take_of_length_le]
    · simp [nameText]
    · simp only [nameText, List.length_append, List.length_cons, List.length_nil]
      omega
  · rw [if_pos hargs]
    dsimp only
    rw [if_neg hargs, List.take_of_length_le]
    · simp [nameText, argsText]
    · simp only [nameText, argsText, List.length_append, List.length_cons, List.length_nil]
      omega

/-- **`aergo_call_smart_contract` sends the payload**: it is that of the transaction which
`aergo_call_smart_contract_json` builds for the text in the buffer. -/
theorem encode_callPayload {function : CString} {args : List Argument} {text : Bytes}
    (h : argsBuffer args = some text) (contractAddress : Bytes) :
    ∃ payload, callPayload function args = some payload ∧
      (EntryPoint.callSmartContract contractAddress function.bytes (some text)).encode =
        .contractCall contractAddress payload := by
  refine ⟨callInfo function.bytes text, ?_, ?_⟩
  · unfold callPayload
    rw [h, Option.map_some]
  · exact congrArg (EncodeCall.contractCall contractAddress) (callInfo_eq function.bytes (some text))

end Libaergo.Arguments
