import Libaergo.Nanopb.Decode

/-!
# What occurs in a message (`nanopb/pb_decode.c`)

The handlers of the answers set callbacks that either fail or take the whole stream, and store numbers.
The decoder with such a structure does the same as one that records what occurs, followed by the effects in
that order until one fails (`pbDecode_effects`).  What it records of a well-formed message are the entries
that were encoded, in any order, with fields of other versions in between (`record_encodes`).
-/

namespace Libaergo.Nanopb

open Lib

variable {σ : Type*}

/-! ### Records -/

/-- What occurs in a message at the end of a path of tags: a number, or the bytes of a field with a
callback. -/
inductive Entry where
  | number (path : List ℕ) (value : ℤ)
  | bytes (path : List ℕ) (value : Bytes)
  deriving DecidableEq

/-- A structure that records the numbers, and the fields with a callback, behind a path. -/
def recorder (callbacks : List ℕ → Bool) (path : List ℕ) : Dest (List Entry) where
  callback p :=
    if callbacks (path ++ p) then some fun es stream => (es ++ [.bytes (path ++ p) stream], some []) else none
  store p value es := es ++ [.number (path ++ p) value]

/-- What occurs in a message, up to where it does not decode, and whether it does. -/
def record (callbacks : List ℕ → Bool) (fields : Fields) (m : Bytes) : List Entry × Option Bytes :=
  pbDecode fields (recorder callbacks []) [] m

/-- What a handler does: its callbacks, which fail or take the whole stream, and where it stores numbers. -/
structure Effects (σ : Type*) where
  read : List ℕ → Option (σ → Bytes → Option σ)
  store : List ℕ → ℤ → σ → σ

/-- A callback that takes the whole stream, unless it fails. -/
def wholeCallback (read : σ → Bytes → Option σ) : Callback σ := fun state stream =>
  match read state stream with
  | none => (state, none)
  | some state => (state, some [])

/-- The structure with these callbacks. -/
def Effects.dest (e : Effects σ) : Dest σ where
  callback path := (e.read path).map wholeCallback
  store := e.store

/-- The fields for which a callback is set. -/
def Effects.callbacks (e : Effects σ) (path : List ℕ) : Bool := (e.read path).isSome

def Effects.apply (e : Effects σ) (state : σ) : Entry → Option σ
  | .number path value => some (e.store path value state)
  | .bytes path value =>
    match e.read path with
    | none => some state
    | some read => read state value

/-- All entries until one fails, and whether none did. -/
def Effects.run (e : Effects σ) : σ → List Entry → σ × Bool
  | state, [] => (state, true)
  | state, entry :: es =>
    match e.apply state entry with
    | none => (state, false)
    | some state => e.run state es

section Effects

variable {e : Effects σ} {s s' : σ} {es : List Entry} {entry : Entry}

@[simp] lemma Effects.run_nil (e : Effects σ) (s : σ) : e.run s [] = (s, true) := rfl

lemma Effects.run_cons_of_some (h : e.apply s entry = some s') : e.run s (entry :: es) = e.run s' es := by
  rw [Effects.run, h]

lemma Effects.run_cons_of_none (h : e.apply s entry = none) : e.run s (entry :: es) = (s, false) := by
  rw [Effects.run, h]

lemma Effects.run_append (e : Effects σ) (s : σ) (es fs : List Entry) :
    e.run s (es ++ fs) = if (e.run s es).2 then e.run (e.run s es).1 fs else e.run s es := by
  induction es generalizing s with
  | nil => rfl
  | cons entry es ih =>
    rw [List.cons_append]
    cases h : e.apply s entry with
    | none => rw [Effects.run_cons_of_none h, Effects.run_cons_of_none h, if_neg Bool.false_ne_true]
    | some s' => rw [Effects.run_cons_of_some h, Effects.run_cons_of_some h, ih]

lemma Effects.apply_bytes {path : List ℕ} {read : σ → Bytes → Option σ} (h : e.read path = some read)
    (s : σ) (value : Bytes) : e.apply s (.bytes path value) = read s value := by
  rw [Effects.apply, h]

lemma dest_simUnless (e : Effects σ) (s₀ : σ) (n : ℕ) :
    DestSim (fun s es => e.run s₀ es = (s, true)) (fun s es => e.run s₀ es = (s, false)) n e.dest
      (recorder e.callbacks []) := by
  refine ⟨fun path => ?_, fun path v s es hs => ?_⟩
  · unfold Effects.dest recorder Effects.callbacks
    dsimp only
    rw [List.nil_append]
    cases hread : e.read path with
    | none => exact .inl ⟨rfl, if_neg Bool.false_ne_true⟩
    | some read =>
      refine .inr ⟨_, _, rfl, if_pos rfl, fun s es stream _ hs => ?_⟩
      have happ := Effects.apply_bytes hread s stream
      have happend := e.run_append s₀ es [.bytes path stream]
      rw [hs, if_pos rfl] at happend
      unfold wholeCallback
      cases hres : read s stream with
      | none =>
        rw [hres] at happ
        rw [Effects.run_cons_of_none happ] at happend
        exact ⟨.inr ⟨rfl, happend⟩, fun rest hrest => by cases hrest⟩
      | some s' =>
        rw [hres] at happ
        rw [Effects.run_cons_of_some happ] at happend
        refine ⟨.inl ⟨happend, rfl⟩, fun rest hrest => ?_⟩
        obtain rfl := Option.some.inj hrest
        exact Nat.zero_le _
  · show e.run s₀ (es ++ [.number ([] ++ path) v]) = (e.store path v s, true)
    rw [Effects.run_append, hs]
    rfl

lemma recorder_keeps (e : Effects σ) (s₀ s : σ) (callbacks : List ℕ → Bool) (path : List ℕ) :
    (recorder callbacks path).Keeps fun es => e.run s₀ es = (s, false) := by
  have hstays : ∀ es entry, e.run s₀ es = (s, false) → e.run s₀ (es ++ [entry]) = (s, false) := by
    intro es entry h
    rw [Effects.run_append, h, if_neg Bool.false_ne_true]
  refine ⟨fun p f hf es stream hes => ?_, fun p v es hes => hstays es _ hes⟩
  obtain ⟨-, hf⟩ := Option.ite_none_right_eq_some.mp hf
  obtain rfl := Option.some.inj hf
  exact hstays es _ hes

/-- **The decoder records, and the effects follow.** -/
theorem pbDecode_effects (e : Effects σ) (fields : Fields) (s : σ) (m : Bytes) :
    pbDecode fields e.dest s m =
      ((e.run s (record e.callbacks fields m).1).1,
        if (e.run s (record e.callbacks fields m).1).2 then (record e.callbacks fields m).2 else none) := by
  have hsim := pbDecode_simUnless (dest_simUnless e s m.length)
    (fun s' => recorder_keeps e s s' e.callbacks []) fields
  obtain ⟨s', es, o, o', hreal, hrecord, hor, -⟩ := hsim.cases (s := s) (t := []) le_rfl rfl
  unfold record
  rw [hreal, hrecord]
  dsimp only
  rcases hor with ⟨hrun, rfl⟩ | ⟨rfl, hrun⟩
  · rw [hrun, if_pos rfl]
  · rw [hrun, if_neg Bool.false_ne_true]

end Effects

/-! ### What the effects come to -/

/-- A number after one more entry. -/
def Entry.updNumber (path : List ℕ) (d : ℤ) : Entry → ℤ
  | .number p value => if p = path then value else d
  | .bytes _ _ => d

/-- A part of the state after one more value of a field. -/
def Entry.updBytes {α : Type*} (path : List ℕ) (f : α → Bytes → α) (d : α) : Entry → α
  | .number _ _ => d
  | .bytes p value => if p = path then f d value else d

/-- The number at the end of a path: the last that occurs, or zero. -/
def lastNumber (path : List ℕ) (es : List Entry) : ℤ := es.foldl (Entry.updNumber path) 0

/-- The value of a field that an entry is. -/
def Entry.value? (path : List ℕ) : Entry → Option Bytes
  | .number _ _ => none
  | .bytes p value => if p = path then some value else none

def values (path : List ℕ) (es : List Entry) : List Bytes := es.filterMap (Entry.value? path)

/-- The value of a field: the last that occurs, or the empty one. -/
def lastBytes (path : List ℕ) (es : List Entry) : Bytes := (values path es).getLastD []

lemma mem_values {path : List ℕ} {b : Bytes} {es : List Entry} : b ∈ values path es ↔ .bytes path b ∈ es := by
  unfold values
  rw [List.mem_filterMap]
  constructor
  · rintro ⟨entry, hmem, hvalue⟩
    cases entry with
    | number p value => cases hvalue
    | bytes p value =>
      obtain ⟨rfl, h⟩ := Option.ite_none_right_eq_some.mp hvalue
      obtain rfl := Option.some.inj h
      exact hmem
  · exact fun h => ⟨_, h, if_pos rfl⟩

lemma values_append_singleton (path : List ℕ) (es : List Entry) (entry : Entry) :
    values path (es ++ [entry]) = values path es ++ (entry.value? path).toList := by
  unfold values
  rw [List.filterMap_append, List.filterMap_cons, List.filterMap_nil]
  cases entry.value? path <;> rfl

lemma foldl_updBytes {α : Type*} (path : List ℕ) (f : α → Bytes → α) (es : List Entry) (d : α) :
    es.foldl (Entry.updBytes path f) d = (values path es).foldl f d := by
  unfold values
  induction es generalizing d with
  | nil => rfl
  | cons entry es ih =>
    rw [List.foldl_cons, ih]
    cases entry with
    | number p value => rw [List.filterMap_cons_none rfl, Entry.updBytes]
    | bytes p value =>
      rw [Entry.updBytes, List.filterMap_cons, Entry.value?]
      split
      · rfl
      · rfl

section Effects

variable {e : Effects σ} {s : σ} {es : List Entry}

/-- The effects fail at the first entry that is not accepted, where the entry alone decides on that. -/
lemma Effects.run_all (accepts : Entry → Bool) (h : ∀ s entry, (e.apply s entry).isSome = accepts entry) :
    (e.run s es).2 = es.all accepts := by
  induction es generalizing s with
  | nil => rfl
  | cons entry es ih =>
    have hentry := h s entry
    cases happ : e.apply s entry with
    | none =>
      rw [happ] at hentry
      rw [Effects.run_cons_of_none happ, List.all_cons, ← hentry]
      rfl
    | some s' =>
      rw [happ] at hentry
      rw [Effects.run_cons_of_some happ, List.all_cons, ← hentry, ih]
      rfl

/-- A message decodes just when all its entries are accepted and nanopb reads it to its end. -/
lemma pbDecode_accepts (accepts : Entry → Bool) (h : ∀ s entry, (e.apply s entry).isSome = accepts entry)
    (fields : Fields) (s : σ) (m : Bytes) : pbDecode fields e.dest s m =
      ((e.run s (record e.callbacks fields m).1).1,
        if (record e.callbacks fields m).1.all accepts then (record e.callbacks fields m).2 else none) := by
  rw [pbDecode_effects, Effects.run_all accepts h]

lemma pbDecode_of_accepts (accepts : Entry → Bool) (h : ∀ s entry, (e.apply s entry).isSome = accepts entry)
    {fields : Fields} {m : Bytes}
    (hread : (record e.callbacks fields m).2.isSome ∧ (record e.callbacks fields m).1.all accepts) (s : σ) :
    ∃ rest, pbDecode fields e.dest s m = ((e.run s (record e.callbacks fields m).1).1, some rest) := by
  obtain ⟨rest, hrest⟩ := Option.isSome_iff_exists.mp hread.1
  exact ⟨rest, by rw [pbDecode_accepts accepts h, if_pos hread.2, hrest]⟩

lemma pbDecode_of_not_accepts (accepts : Entry → Bool) (h : ∀ s entry, (e.apply s entry).isSome = accepts entry)
    {fields : Fields} {m : Bytes}
    (hread : ¬ ((record e.callbacks fields m).2.isSome ∧ (record e.callbacks fields m).1.all accepts)) (s : σ) :
    pbDecode fields e.dest s m = ((e.run s (record e.callbacks fields m).1).1, none) := by
  rw [pbDecode_accepts accepts h]
  split
  · next hall =>
    have hnone := Option.not_isSome_iff_eq_none.mp fun hsome => hread ⟨hsome, hall⟩
    rw [hnone]
  · rfl

/-- The entries in front of the first that is not accepted take effect. -/
lemma Effects.run_takeWhile (accepts : Entry → Bool)
    (h : ∀ s entry, (e.apply s entry).isSome = accepts entry) :
    e.run s (es.takeWhile accepts) = ((e.run s es).1, true) := by
  induction es generalizing s with
  | nil => rfl
  | cons entry es ih =>
    have hentry := h s entry
    cases happ : e.apply s entry with
    | none =>
      rw [happ] at hentry
      rw [Effects.run_cons_of_none happ, List.takeWhile_cons_of_neg (by rw [← hentry]; exact Bool.false_ne_true),
        Effects.run_nil]
    | some s' =>
      rw [happ] at hentry
      rw [List.takeWhile_cons_of_pos hentry.symm, Effects.run_cons_of_some happ, Effects.run_cons_of_some happ, ih]

/-- A part of the state that every entry changes by itself comes out of the entries. -/
lemma Effects.run_part {α : Type*} (part : σ → α) (upd : α → Entry → α)
    (hstep : ∀ s entry s', e.apply s entry = some s' → part s' = upd (part s) entry)
    (h : (e.run s es).2 = true) : part (e.run s es).1 = es.foldl upd (part s) := by
  induction es generalizing s with
  | nil => rfl
  | cons entry es ih =>
    cases happ : e.apply s entry with
    | none =>
      rw [Effects.run_cons_of_none happ] at h
      exact absurd h Bool.false_ne_true
    | some s' =>
      rw [Effects.run_cons_of_some happ] at h ⊢
      rw [ih h, hstep s entry s' happ, List.foldl_cons]

end Effects

/-! ### Well-formed messages -/

/-- The numbers of a type, from the first to before the second. -/
def numberRange : FieldType → ℤ × ℤ
  | .bool => (0, 2)
  | .uint32 => (0, 2 ^ 32)
  | .int32 => (-2 ^ 31, 2 ^ 31)
  | .int64 => (-2 ^ 63, 2 ^ 63)
  | _ => (0, 2 ^ 64)

/-- A number of that type is written as this one without sign; negative ones take all 64 bits. -/
def Spells (type : FieldType) (value : ℤ) (n : ℕ) : Prop :=
  (numberRange type).1 ≤ value ∧ value < (numberRange type).2 ∧ (n : ℤ) = value % 2 ^ 64

def FieldType.IsNumber : FieldType → Prop
  | .callback => False
  | .message _ => False
  | _ => True

/-- **A well-formed message of these fields**, behind a path of tags, and what occurs in it: its fields in
any order, some of them several times or not at all, and unknown ones in between. -/
inductive Encodes : Fields → List ℕ → Bytes → List Entry → Prop
  | nil (fields path) : Encodes fields path [] []
  | unknown {fields path m es} (f : Wire.Field) : f.Ok → (∀ bs, f.val = .len bs → bs.length < 2 ^ 32) →
      fields.find f.num = none → Encodes fields path m es → Encodes fields path (f.text ++ m) es
  | number {fields path m es} (num n : ℕ) (type : FieldType) (value : ℤ) : (⟨num, .varint n⟩ : Wire.Field).Ok →
      fields.find num = some type → type.IsNumber → Spells type value n → Encodes fields path m es →
      Encodes fields path ((⟨num, .varint n⟩ : Wire.Field).text ++ m) (.number (path ++ [num]) value :: es)
  | bytes {fields path m es} (num : ℕ) (bs : Bytes) : (⟨num, .len bs⟩ : Wire.Field).Ok → bs.length < 2 ^ 32 →
      fields.find num = some .callback → Encodes fields path m es →
      Encodes fields path ((⟨num, .len bs⟩ : Wire.Field).text ++ m) (.bytes (path ++ [num]) bs :: es)
  | message {fields path m es} (num : ℕ) (sub : Fields) (body : Bytes) (inner : List Entry) :
      (⟨num, .len body⟩ : Wire.Field).Ok → body.length < 2 ^ 32 → fields.find num = some (.message sub) →
      Encodes sub (path ++ [num]) body inner → Encodes fields path m es →
      Encodes fields path ((⟨num, .len body⟩ : Wire.Field).text ++ m) (inner ++ es)

lemma lenField_ok {num : ℕ} {bs : Bytes} (hpos : 0 < num) (hlt : num < 2 ^ 29) (h : bs.length < 2 ^ 32) :
    (⟨num, .len bs⟩ : Wire.Field).Ok :=
  ⟨hpos, hlt, h.trans (show 2 ^ 32 < 2 ^ 64 by decide)⟩

/-- What is recorded with these callbacks. -/
def Entry.visible (callbacks : List ℕ → Bool) : Entry → Bool
  | .number _ _ => true
  | .bytes path _ => callbacks path

lemma lastNumber_filter (callbacks : List ℕ → Bool) (path : List ℕ) (es : List Entry) :
    lastNumber path (es.filter (Entry.visible callbacks)) = lastNumber path es := by
  unfold lastNumber
  generalize (0 : ℤ) = d
  induction es generalizing d with
  | nil => rfl
  | cons entry es ih =>
    cases entry with
    | number p value =>
      rw [List.filter_cons_of_pos rfl, List.foldl_cons, List.foldl_cons, ih]
    | bytes p value =>
      have hskip : Entry.updNumber path d (.bytes p value) = d := rfl
      rw [List.foldl_cons, hskip, ← ih]
      cases hcb : callbacks p with
      | false => rw [List.filter_cons_of_neg (by rw [Entry.visible, hcb]; decide)]
      | true => rw [List.filter_cons_of_pos (by rw [Entry.visible, hcb]), List.foldl_cons, hskip]

lemma values_filter {callbacks : List ℕ → Bool} {path : List ℕ} (h : callbacks path) (es : List Entry) :
    values path (es.filter (Entry.visible callbacks)) = values path es := by
  unfold values
  induction es with
  | nil => rfl
  | cons entry es ih =>
    by_cases hvisible : entry.visible callbacks
    · rw [List.filter_cons_of_pos hvisible, List.filterMap_cons, List.filterMap_cons, ih]
    · rw [List.filter_cons_of_neg hvisible, ih, List.filterMap_cons_none]
      cases entry with
      | number p value => rfl
      | bytes p value =>
        refine if_neg ?_
        rintro rfl
        exact hvisible h

section Varint

variable {n k : ℕ} {rest : Bytes}

lemma varint_byte (byte : UInt8) : (byte &&& 0x7F).toNat = byte.toNat % 128 ∧
    (byte &&& 0x80 = 0 ↔ byte.toNat < 128) ∧ (byte.toNat < 16 → byte &&& 0x70 = 0) := by
  have hall : ∀ b < 256, (UInt8.ofNat b &&& 0x7F).toNat = b % 128 ∧
      (UInt8.ofNat b &&& 0x80 = 0 ↔ b < 128) ∧ (b < 16 → UInt8.ofNat b &&& 0x70 = 0) := by decide +kernel
  have h := hall byte.toNat byte.toNat_lt
  rwa [UInt8.ofNat_toNat] at h

lemma varint32Add_eq {bitpos result : ℕ} (byte : UInt8) (hpos : bitpos < 32) (hresult : result < 2 ^ bitpos)
    (hfit : byte.toNat % 128 * 2 ^ bitpos < 2 ^ 32) :
    varint32Add bitpos result byte = result + byte.toNat % 128 * 2 ^ bitpos := by
  rw [varint32Add, if_neg (not_le.mpr hpos), (varint_byte byte).1, Nat.shiftLeft_eq, Nat.mod_eq_of_lt hfit,
    Nat.or_comm, ← Nat.shiftLeft_eq, ← Nat.shiftLeft_add_eq_or_of_lt hresult, Nat.shiftLeft_eq, Nat.add_comm]

lemma varint32Loop_groups {i result : ℕ} (hi : i < 4) (hn : n < 2 ^ (32 - 7 * (i + 1)))
    (hresult : result < 2 ^ (7 * (i + 1))) (hk : 4 ≤ i + k) :
    varint32Loop (7 * (i + 1)) result (varintGroups k n ++ rest) =
      some (result + n * 2 ^ (7 * (i + 1)), rest) := by
  induction k generalizing i n result with
  | zero => omega
  | succ k ih =>
    have hpos : 7 * (i + 1) < 32 := by omega
    have htotal : n * 2 ^ (7 * (i + 1)) < 2 ^ 32 := by
      have hpow : 2 ^ (32 - 7 * (i + 1)) * 2 ^ (7 * (i + 1)) = 2 ^ 32 := by
        rw [← pow_add, Nat.sub_add_cancel hpos.le]
      rw [← hpow]
      exact Nat.mul_lt_mul_of_pos_right hn (Nat.two_pow_pos _)
    have hover : ∀ byte, varint32Overflow (7 * (i + 1)) result byte = false := by
      intro byte
      simp [varint32Overflow, hpos]
    rw [varintGroups]
    by_cases hlast : n < 128
    · have hbyte : (UInt8.ofNat n).toNat = n := by
        rw [UInt8.toNat_ofNat']
        omega
      obtain ⟨-, hmore, hhigh⟩ := varint_byte (UInt8.ofNat n)
      rw [hbyte] at hmore hhigh
      have hfull : ¬ ((7 * (i + 1) + 7) % 256 = 35 ∧ UInt8.ofNat n &&& 0x70 ≠ 0) := by
        rintro ⟨h35, hne⟩
        obtain rfl : i = 3 := by omega
        exact hne (hhigh hn)
      have hadd := varint32Add_eq (UInt8.ofNat n) hpos hresult
        (by rw [hbyte, Nat.mod_eq_of_lt hlast]; exact htotal)
      rw [hbyte, Nat.mod_eq_of_lt hlast] at hadd
      rw [if_pos hlast, List.singleton_append, varint32Loop, hover, if_neg Bool.false_ne_true,
        if_neg (not_not.mpr (hmore.mpr hlast)), if_neg hfull, hadd]
    · have hbyte : (UInt8.ofNat (n % 128 + 128)).toNat = n % 128 + 128 := by
        rw [UInt8.toNat_ofNat']
        omega
      have hlow : (n % 128 + 128) % 128 = n % 128 := by omega
      obtain ⟨-, hmore, -⟩ := varint_byte (UInt8.ofNat (n % 128 + 128))
      rw [hbyte] at hmore
      -- the fifth group is the last
      have hi3 : i < 3 := by
        by_contra h
        obtain rfl : i = 3 := by omega
        have hsmall : 2 ^ (32 - 7 * (3 + 1)) = 16 := rfl
        omega
      have hle : n % 128 * 2 ^ (7 * (i + 1)) ≤ n * 2 ^ (7 * (i + 1)) :=
        Nat.mul_le_mul_right _ (Nat.mod_le n 128)
      have hadd := varint32Add_eq (UInt8.ofNat (n % 128 + 128)) hpos hresult
        (by rw [hbyte, hlow]; exact hle.trans_lt htotal)
      rw [hbyte, hlow] at hadd
      have hnext : (7 * (i + 1) + 7) % 256 = 7 * (i + 1 + 1) := by omega
      have hpow : 2 ^ (7 * (i + 1 + 1)) = 2 ^ (7 * (i + 1)) * 128 := by
        rw [Nat.mul_add 7 (i + 1) 1, pow_add, show 2 ^ (7 * 1) = 128 from rfl]
      have hquot : n / 128 < 2 ^ (32 - 7 * (i + 1 + 1)) := by
        rw [Nat.div_lt_iff_lt_mul (by decide)]
        have hsplit : 32 - 7 * (i + 1) = 32 - 7 * (i + 1 + 1) + 7 := by omega
        rwa [hsplit, pow_add] at hn
      have hless : result + n % 128 * 2 ^ (7 * (i + 1)) < 2 ^ (7 * (i + 1 + 1)) := by
        rw [hpow]
        have hdigit : (n % 128 + 1) * 2 ^ (7 * (i + 1)) ≤ 128 * 2 ^ (7 * (i + 1)) :=
          Nat.mul_le_mul_right _ (Nat.mod_lt n (by decide))
        rw [Nat.add_mul, Nat.one_mul] at hdigit
        omega
      rw [if_neg hlast, List.cons_append, varint32Loop, hover, if_neg Bool.false_ne_true,
        if_pos (fun h => by have := hmore.mp h; omega), hnext, hadd,
        ih (show i + 1 < 4 by omega) hquot hless (by omega), hpow]
      refine congrArg (fun v => some (v, rest)) ?_
      have hn := Nat.div_add_mod n 128
      calc result + n % 128 * 2 ^ (7 * (i + 1)) + n / 128 * (2 ^ (7 * (i + 1)) * 128)
          = result + (128 * (n / 128) + n % 128) * 2 ^ (7 * (i + 1)) := by ring
        _ = result + n * 2 ^ (7 * (i + 1)) := by rw [hn]

/-- **A varint of 32 bits reads back.** -/
theorem pbDecodeVarint32_varint (rest : Bytes) (h : n < 2 ^ 32) :
    pbDecodeVarint32 (varint n ++ rest) = some (n, rest) := by
  rw [varint, varintGroups]
  by_cases hlast : n < 128
  · have hbyte : (UInt8.ofNat n).toNat = n := by
      rw [UInt8.toNat_ofNat']
      omega
    obtain ⟨-, hmore, -⟩ := varint_byte (UInt8.ofNat n)
    rw [hbyte] at hmore
    rw [if_pos hlast, List.singleton_append, pbDecodeVarint32, if_pos (hmore.mpr hlast), hbyte]
  · have hbyte : (UInt8.ofNat (n % 128 + 128)).toNat = n % 128 + 128 := by
      rw [UInt8.toNat_ofNat']
      omega
    obtain ⟨hlow, hmore, -⟩ := varint_byte (UInt8.ofNat (n % 128 + 128))
    rw [hbyte] at hlow hmore
    have hloop : varint32Loop (7 * (0 + 1)) (n % 128) (varintGroups 9 (n / 128) ++ rest) =
        some (n % 128 + n / 128 * 2 ^ (7 * (0 + 1)), rest) :=
      varint32Loop_groups (by decide) (by omega) (by omega) (by decide)
    rw [if_neg hlast, List.cons_append, pbDecodeVarint32, if_neg fun h => by have := hmore.mp h; omega, hlow,
      show (n % 128 + 128) % 128 = n % 128 by omega]
    refine hloop.trans (congrArg (fun v => some (v, rest)) ?_)
    omega

end Varint

/-! ### Fields that were encoded -/

section Fields

variable {fields : Fields} {path : List ℕ} {m : Bytes} {es : List Entry} {callbacks : List ℕ → Bool}

lemma pbMakeStringSubstream_len {bs : Bytes} (rest : Bytes) (h : bs.length < 2 ^ 32) :
    pbMakeStringSubstream (varint bs.length ++ bs ++ rest) = some (bs, rest) := by
  unfold pbMakeStringSubstream
  rw [List.append_assoc, pbDecodeVarint32_varint _ h]
  exact Wire.takeBytes_append rest rfl

lemma pbSkipVarint_groups (k n : ℕ) (rest : Bytes) (h : n < 128 ^ (k + 1)) :
    pbSkipVarint (varintGroups (k + 1) n ++ rest) = some rest := by
  induction k generalizing n with
  | zero =>
    rw [zero_add, pow_one] at h
    have hbyte : (UInt8.ofNat n).toNat = n := by
      rw [UInt8.toNat_ofNat']
      omega
    have hmore := (varint_byte (UInt8.ofNat n)).2.1
    rw [hbyte] at hmore
    rw [varintGroups, if_pos h, List.singleton_append, pbSkipVarint, if_neg (not_not.mpr (hmore.mpr h))]
  | succ k ih =>
    rw [varintGroups]
    by_cases hlast : n < 128
    · have hbyte : (UInt8.ofNat n).toNat = n := by
        rw [UInt8.toNat_ofNat']
        omega
      have hmore := (varint_byte (UInt8.ofNat n)).2.1
      rw [hbyte] at hmore
      rw [if_pos hlast, List.singleton_append, pbSkipVarint, if_neg (not_not.mpr (hmore.mpr hlast))]
    · have hbyte : (UInt8.ofNat (n % 128 + 128)).toNat = n % 128 + 128 := by
        rw [UInt8.toNat_ofNat']
        omega
      have hmore := (varint_byte (UInt8.ofNat (n % 128 + 128))).2.1
      rw [hbyte] at hmore
      have hq : n / 128 < 128 ^ (k + 1) := by
        rw [Nat.div_lt_iff_lt_mul (by decide), ← pow_succ]
        exact h
      rw [if_neg hlast, List.cons_append, pbSkipVarint, if_pos fun h => by have := hmore.mp h; omega, ih _ hq]

lemma pbSkipField_payload {v : Wire.Value} (rest : Bytes) (h : v.Ok)
    (hlen : ∀ bs, v = .len bs → bs.length < 2 ^ 32) : pbSkipField v.wt (v.payload ++ rest) = some rest := by
  cases v with
  | varint n =>
    have hn : n < 2 ^ 64 := h
    have hpow : 2 ^ 64 < 128 ^ (9 + 1) := by decide
    exact pbSkipVarint_groups 9 n rest (hn.trans hpow)
  | i64 bs => exact congrArg (Option.map Prod.snd) (Wire.takeBytes_append rest h)
  | len bs => exact congrArg (Option.map Prod.snd) (pbMakeStringSubstream_len rest (hlen bs rfl))
  | i32 bs => exact congrArg (Option.map Prod.snd) (Wire.takeBytes_append rest h)

lemma readNumber_varint {type : FieldType} {value : ℤ} {n : ℕ} (rest : Bytes) (h : Spells type value n) :
    readNumber type (varint n ++ rest) = some (value, some rest) := by
  obtain ⟨hlo, hhi, hn⟩ := h
  have h64 : n < 2 ^ 64 := by omega
  cases type with
  | bool =>
    have hlo : 0 ≤ value := hlo
    have hhi : value < 2 := hhi
    have h32 : n < 2 ^ 32 := by omega
    rw [readNumber, pbDecodeVarint32_varint rest h32, Option.map_some]
    dsimp only
    refine congrArg (fun v => some (v, some rest)) ?_
    split <;> omega
  | uint32 =>
    have hlo : 0 ≤ value := hlo
    have hhi : value < 2 ^ 32 := hhi
    rw [readNumber, readVarint_varint rest h64, Option.map_some]
    dsimp only
    rw [if_pos (by omega)]
    refine congrArg (fun v => some (v, some rest)) ?_
    omega
  | int32 =>
    have hlo : -2 ^ 31 ≤ value := hlo
    have hhi : value < 2 ^ 31 := hhi
    rw [readNumber, readVarint_varint rest h64, Option.map_some]
    dsimp only
    refine congrArg (fun v => some (v, some rest)) ?_
    rw [BitVec.toInt_eq_toNat_bmod, BitVec.toNat_ofNat, Int.bmod_def]
    push_cast
    omega
  | int64 =>
    have hlo : -2 ^ 63 ≤ value := hlo
    have hhi : value < 2 ^ 63 := hhi
    rw [readNumber, readVarint_varint rest h64, Option.map_some]
    dsimp only
    refine congrArg (fun v => some (v, some rest)) ?_
    rw [BitVec.toInt_eq_toNat_bmod, BitVec.toNat_ofNat, Int.bmod_def]
    push_cast
    omega
  | uint64 | callback | message _ =>
    have hlo : 0 ≤ value := hlo
    have hhi : value < 2 ^ 64 := hhi
    rw [readNumber, readVarint_varint rest h64, Option.map_some]
    · dsimp only
      refine congrArg (fun v => some (v, some rest)) ?_
      omega
    all_goals simp

lemma pbDecodeLoop_text {f : Wire.Field} (hf : f.Ok) (k : ℕ) (dest : Dest σ) (s : σ) (m : Bytes) :
    pbDecodeLoop (k + 1) fields dest s (f.text ++ m) =
      match fields.find f.num with
      | none =>
        match pbSkipField f.val.wt (f.val.payload ++ m) with
        | none => (s, none)
        | some rest => pbDecodeLoop k fields dest s rest
      | some type =>
        match decodeField (fun fields => pbDecodeLoop k fields (dest.sub f.num)) (dest.callback [f.num])
          (dest.store [f.num]) f.val.wt type s (f.val.payload ++ m) with
        | (s, none) => (s, none)
        | (s, some rest) => pbDecodeLoop k fields dest s rest := by
  have hpos := hf.pos
  have hlt := hf.lt
  have hwt : f.val.wt < 8 := by cases f.val <;> simp [Wire.Value.wt]
  have hkey : f.num * 8 + f.val.wt < 2 ^ 32 := by omega
  have hread : pbDecodeVarint32 (f.text ++ m) = some (f.num * 8 + f.val.wt, f.val.payload ++ m) := by
    rw [Wire.Field.text, List.append_assoc, pbDecodeVarint32_varint _ hkey]
  have hnum : (f.num * 8 + f.val.wt) / 8 = f.num := by omega
  have htype : (f.num * 8 + f.val.wt) % 8 = f.val.wt := by omega
  obtain ⟨byte, stream, htext⟩ := List.exists_cons_of_ne_nil (Wire.text_ne_nil f)
  rw [htext, List.cons_append] at hread ⊢
  rw [pbDecodeLoop, hread]
  dsimp only
  rw [if_neg (by omega)]
  generalize (f.num * 8 + f.val.wt) / 8 = num at hnum ⊢
  generalize (f.num * 8 + f.val.wt) % 8 = wireType at htype ⊢
  subst hnum htype
  rfl

lemma recorder_sub (callbacks : List ℕ → Bool) (path : List ℕ) (tag : ℕ) :
    (recorder callbacks path).sub tag = recorder callbacks (path ++ [tag]) := by
  unfold Dest.sub recorder
  simp

section Cases

variable {sub : Fields → Callback σ} {store : ℤ → σ → σ} {wireType : ℕ} {s : σ} {stream : Bytes}

lemma decodeField_skip :
    decodeField sub none store wireType .callback s stream = (s, pbSkipField wireType stream) := rfl

lemma decodeField_callback (decode : Callback σ) :
    decodeField sub (some decode) store wireType .callback s stream =
      decodeCallbackField decode wireType s stream := rfl

lemma decodeField_message (decode : Option (Callback σ)) :
    decodeField sub decode store wireType (.message fields) s stream = pbDecSubmessage (sub fields) s stream :=
  rfl

lemma decodeField_number {decode : Option (Callback σ)} {type : FieldType} (h : type.IsNumber) :
    decodeField sub decode store wireType type s stream = decodeNumber store type s stream := by
  cases type with
  | callback | message _ => exact absurd h id
  | bool | uint32 | uint64 | int32 | int64 => rfl

end Cases

lemma pbDecodeLoop_encodes (h : Encodes fields path m es) {k : ℕ} (hk : m.length ≤ k) (es₀ : List Entry) :
    pbDecodeLoop k fields (recorder callbacks path) es₀ m =
      (es₀ ++ es.filter (Entry.visible callbacks), some []) := by
  have hfuel : ∀ {f : Wire.Field} {m : Bytes} {k : ℕ}, (f.text ++ m).length ≤ k →
      ∃ j, k = j + 1 ∧ m.length ≤ j ∧ f.val.payload.length ≤ j := by
    intro f m k hk
    have hpos := varint_length_pos (f.num * 8 + f.val.wt)
    rw [Wire.Field.text, List.length_append, List.length_append] at hk
    exact ⟨k - 1, by omega, by omega, by omega⟩
  induction h generalizing k es₀ with
  | nil fields path =>
    rw [pbDecodeLoop]
    simp
  | @unknown fields path m es f hf hlen hfind _ ih =>
    obtain ⟨k, rfl, hm, -⟩ := hfuel hk
    rw [pbDecodeLoop_text hf, hfind]
    dsimp only
    rw [pbSkipField_payload m hf.val hlen]
    exact ih hm es₀
  | @number fields path m es num n type value hf hfind htype hspells _ ih =>
    obtain ⟨k, rfl, hm, -⟩ := hfuel hk
    rw [pbDecodeLoop_text hf]
    dsimp only
    rw [hfind]
    dsimp only
    have hread := readNumber_varint m hspells
    rw [decodeField_number htype, decodeNumber, Wire.Value.payload, hread]
    refine (ih hm _).trans ?_
    rw [List.filter_cons_of_pos (by rfl)]
    show (es₀ ++ [.number (path ++ [num]) value] ++ es.filter _, some []) = _
    rw [List.append_assoc]
    rfl
  | @bytes fields path m es num bs hf hlen hfind _ ih =>
    obtain ⟨k, rfl, hm, -⟩ := hfuel hk
    rw [pbDecodeLoop_text hf]
    dsimp only
    rw [hfind]
    dsimp only
    cases hcb : callbacks (path ++ [num]) with
    | false =>
      have hnone : (recorder callbacks path).callback [num] = none := if_neg (by rw [hcb]; decide)
      have hskip := pbSkipField_payload (v := .len bs) m hf.val fun bs' hbs => by cases hbs; exact hlen
      rw [hnone, decodeField_skip, hskip]
      refine (ih hm es₀).trans ?_
      rw [List.filter_cons_of_neg (by rw [Entry.visible, hcb]; decide)]
    | true =>
      have hsome : (recorder callbacks path).callback [num] =
          some fun es stream => (es ++ [.bytes (path ++ [num]) stream], some []) := if_pos hcb
      have hwt : (Wire.Value.len bs).wt = 2 := rfl
      have hsub := pbMakeStringSubstream_len m hlen
      rw [hsome, decodeField_callback, decodeCallbackField, if_pos hwt, Wire.Value.payload, hsub]
      refine (ih hm _).trans ?_
      rw [List.filter_cons_of_pos (by rw [Entry.visible, hcb]), List.append_assoc]
      rfl
  | @message fields path m es num sub body inner hf hlen hfind _ _ ihInner ih =>
    obtain ⟨k, rfl, hm, hbody⟩ := hfuel hk
    have hbody : body.length ≤ k := by
      rw [Wire.Value.payload, List.length_append] at hbody
      omega
    have hinner := ihInner hbody es₀
    have hsub := pbMakeStringSubstream_len m hlen
    rw [pbDecodeLoop_text hf]
    dsimp only
    rw [hfind]
    dsimp only
    rw [decodeField_message, pbDecSubmessage, Wire.Value.payload, hsub]
    dsimp only
    rw [recorder_sub, hinner]
    refine (ih hm _).trans ?_
    rw [List.filter_append, List.append_assoc]

/-- **A well-formed message is recorded as it was encoded.** -/
theorem record_encodes (callbacks : List ℕ → Bool) (h : Encodes fields [] m es) :
    record callbacks fields m = (es.filter (Entry.visible callbacks), some []) :=
  pbDecodeLoop_encodes h le_rfl []

end Fields

end Libaergo.Nanopb
