import Libaergo.Lib.Decimal

/-!
# The arguments of a call (`conversions.c`)

`arguments_to_json` writes the arguments of a call as a JSON array into a buffer of the caller.  Every kind of
argument has its own check of the space that is left: a string is compared with the end of the buffer at each
of its characters, the others with `dsize` before they are written, and `snprintf` cuts a number off at
`dsize` and writes its null byte behind it.  The commas, the quotes, the bracket and the null byte at the end
are written without a check.

The buffer is written from its front on: what stands in it up to `dest` is a text, and `reach` is one behind
the last byte that was written.
-/

namespace Libaergo.Arguments

open Lib

/-! ### Arguments -/

/-- A text that ends at its null byte, without it. -/
structure CString where
  bytes : Bytes
  noNull : (0 : UInt8) ∉ bytes

/-- A `double`: plus or minus `mantissa · 2 ^ exponent`, or none of these. -/
inductive Double
  | finite (negative : Bool) (mantissa : ℕ) (exponent : ℤ) (hm : mantissa < 2 ^ 53)
      (he : -1074 ≤ exponent ∧ exponent ≤ 971)
  | infinity (negative : Bool)
  | nan (negative : Bool)

/-- A character of `types`, with the argument that `va_arg` takes for it. -/
inductive Argument
  | string (z : CString)
  | int (v : Int32)
  | int64 (v : Int64)
  | double (v : Double)
  | bytes (bs : Bytes) (size : bs.length < 2 ^ 31)
  | other (c : UInt8) (h : c ∉ [0x00, 0x73, 0x69, 0x6c, 0x64, 0x62])

/-- The character: `s`, `i`, `l`, `d`, `b` or another one. -/
def Argument.type : Argument → UInt8
  | .string _ => 0x73
  | .int _ => 0x69
  | .int64 _ => 0x6c
  | .double _ => 0x64
  | .bytes _ _ => 0x62
  | .other c _ => c

/-! ### What `printf` makes of numbers -/

/-- `%d` -/
def intText (n : ℤ) : Bytes := if n < 0 then 0x2d :: decText n.natAbs else decText n.natAbs

/-- The integer next to a fraction, the even one of two. -/
def roundHalfEven (n d : ℕ) : ℕ :=
  if 2 * (n % d) < d ∨ 2 * (n % d) = d ∧ n / d % 2 = 0 then n / d else n / d + 1

/-- A number of millionths, with six decimals. -/
def millionths (n : ℕ) : Bytes :=
  decText (n / 10 ^ 6) ++
    0x2e :: (List.replicate (6 - (decText (n % 10 ^ 6)).length) 0x30 ++ decText (n % 10 ^ 6))

/-- `%f` -/
def Double.text : Double → Bytes
  | .finite negative mantissa exponent _ _ =>
    (if negative then [0x2d] else []) ++
      millionths (roundHalfEven (mantissa * 2 ^ exponent.toNat * 10 ^ 6) (2 ^ (-exponent).toNat))
  | .infinity negative => (if negative then [0x2d] else []) ++ [0x69, 0x6e, 0x66]
  | .nan negative => (if negative then [0x2d] else []) ++ [0x6e, 0x61, 0x6e]

def hexdigits : Bytes :=
  [0x30, 0x31, 0x32, 0x33, 0x34, 0x35, 0x36, 0x37, 0x38, 0x39, 0x41, 0x42, 0x43, 0x44, 0x45, 0x46]

def hexText (bs : Bytes) : Bytes :=
  bs.flatMap fun (c : UInt8) =>
    [hexdigits.getD ((c >>> 4) &&& 0xf).toNat 0, hexdigits.getD (c &&& 0xf).toNat 0]

/-! ### The buffer -/

/-- What stands in the buffer up to `dest`, and one behind the last byte that was written. -/
structure Rendering where
  text : Bytes
  reach : ℕ

/-- `*dest++ = c` -/
def Rendering.put (r : Rendering) (c : UInt8) : Rendering := ⟨r.text ++ [c], max r.reach (r.text.length + 1)⟩

def Rendering.puts (r : Rendering) (cs : Bytes) : Rendering := cs.foldl Rendering.put r

/-- `snprintf(dest, dsize, …)` and `dest += strlen(dest)` -/
def Rendering.print (r : Rendering) (dsize : ℤ) (text : Bytes) : Rendering :=
  let shown := text.take (dsize.toNat - 1)
  ⟨r.text ++ shown, max r.reach (r.text.length + shown.length + 1)⟩

/-- The comma in front of an argument that is not the first. -/
def Rendering.comma (r : Rendering) (first : Bool) : Rendering := if first then r else r.put 0x2c

/-- The result of a conversion to `int`. -/
def int32 (n : ℤ) : ℤ := n.bmod (2 ^ 32)

lemma intText_length_le {n : ℤ} (hlo : -2 ^ 31 ≤ n) (hhi : n < 2 ^ 31) : (intText n).length ≤ 11 := by
  have hten : (decText n.natAbs).length ≤ 10 := (decText_length_le_iff (by decide)).mpr (by omega)
  unfold intText
  split
  · rw [List.length_cons]
    omega
  · omega

lemma intText_int32_length_le (n : ℤ) : (intText (int32 n)).length ≤ 11 :=
  intText_length_le (Int.le_bmod (by decide)) (Int.bmod_lt (by decide))

/-! ### `arguments_to_json` -/

/-- The characters of a string, up to the one behind `limit`. -/
def copyString (limit : ℤ) : Bytes → Rendering → Bool × Rendering
  | [], r => (true, r)
  | c :: z, r => if limit < (r.put c).text.length then (false, r.put c) else copyString limit z (r.put c)

def render (bufsize dsize : ℤ) (first : Bool) (r : Rendering) : Argument → Bool × Rendering
  | .string z =>
    match copyString (bufsize - 4) z.bytes ((r.comma first).put 0x22) with
    | (false, r) => (false, r)
    | (true, r) => (true, r.put 0x22)
  | .int v => if dsize < 12 then (false, r) else (true, (r.comma first).print dsize (intText v.toInt))
  | .int64 v => if dsize < 12 then (false, r) else (true, (r.comma first).print dsize (decText v.toUInt64.toNat))
  | .double v => if dsize < 26 then (false, r) else (true, (r.comma first).print dsize v.text)
  | .bytes bs _ =>
    if dsize < int32 (int32 (bs.length * 2) + 3) then (false, r)
    else (true, (((r.comma first).put 0x22).puts (hexText bs)).put 0x22)
  | .other _ _ => (false, r)

/-- The loop over `types`. -/
def renderAll (bufsize : ℤ) : Bool → ℤ → Rendering → List Argument → Bool × Rendering
  | _, _, r, [] => (true, r)
  | first, dsize, r, a :: as =>
    match render bufsize dsize first r a with
    | (false, r) => (false, r)
    | (true, r) => renderAll bufsize false (int32 (bufsize - r.text.length)) r as

/-- **`arguments_to_json`**: its result, and the buffer. -/
def argumentsToJson (bufsize : ℤ) (args : List Argument) : Bool × Rendering :=
  match renderAll bufsize true (bufsize - 2) ⟨[0x5b], 1⟩ args with
  | (false, r) => (false, r)
  | (true, r) => (true, (r.put 0x5d).put 0)

/-! ### What is inside, and what is whole -/

/-- The text of an argument, as long as it is. -/
def Argument.text : Argument → Bytes
  | .string z => 0x22 :: (z.bytes ++ [0x22])
  | .int v => intText v.toInt
  | .int64 v => decText v.toUInt64.toNat
  | .double v => v.text
  | .bytes bs _ => 0x22 :: (hexText bs ++ [0x22])
  | .other _ _ => []

/-- **The rendering stays in its buffer**: every byte is written inside, and if the function returns true, the
text ends with its null byte there and has all arguments in full. -/
structure RendersInside (bufsize : ℕ) (args : List Argument) : Prop where
  inside : (argumentsToJson bufsize args).2.reach ≤ bufsize
  terminated : (argumentsToJson bufsize args).1 = true →
    ∃ text, (argumentsToJson bufsize args).2.text = text ++ [0] ∧ text.length < bufsize
  whole : (argumentsToJson bufsize args).1 = true →
    (argumentsToJson bufsize args).2.text = 0x5b :: ([0x2c].intercalate (args.map Argument.text) ++ [0x5d, 0])

/-- The arguments that `snprintf` writes. -/
def Argument.isNumber : Argument → Bool
  | .int _ | .int64 _ | .double _ => true
  | _ => false

def separator (first : Bool) : Bytes := if first then [] else [0x2c]

/-- The space that is left at this offset, before the first argument and before the others. -/
def room (bufsize : ℕ) (first : Bool) (o : ℕ) : ℤ := if first then bufsize - 2 else bufsize - o

/-- The arguments that are refused at this offset. -/
def Argument.refused (bufsize : ℕ) (first : Bool) (o : ℕ) : Argument → Bool
  | .string z => z.bytes ≠ [] ∧ bufsize < o + (separator first).length + z.bytes.length + 5
  | .int _ => room bufsize first o < 12
  | .int64 _ => room bufsize first o < 12
  | .double _ => room bufsize first o < 26
  | .bytes bs _ => room bufsize first o < int32 (int32 (bs.length * 2) + 3)
  | .other _ _ => true

/-- The numbers that `snprintf` cuts off at this offset. -/
def Argument.cut (bufsize : ℕ) (first : Bool) (o : ℕ) (a : Argument) : Bool :=
  a.isNumber ∧ room bufsize first o ≤ a.text.length

/-- The arguments fit in the buffer behind this offset.  A string that is refused has room for its quote and
one character.  A number that is cut off is the first argument, and the next one is refused before anything of
it is written.  Any other argument ends inside, with the null byte that `snprintf` writes; and behind the last
one there is room for the bracket and the null byte. -/
def Fits (bufsize : ℕ) : Bool → ℕ → List Argument → Prop
  | _, o, [] => o + 2 ≤ bufsize
  | first, o, a :: as =>
    if a.refused bufsize first o then a.type = 0x73 → o + (separator first).length + 2 ≤ bufsize
    else if a.cut bufsize first o then
      first ∧ ∃ a' ∈ as.head?, a'.refused bufsize false (bufsize - 2) ∧ a'.type ≠ 0x73
    else
      o + (separator first).length + a.text.length + (if a.isNumber then 1 else 0) ≤ bufsize ∧
        Fits bufsize false (o + (separator first).length + a.text.length) as

/-! ### One argument -/

section Render

variable {r r' : Rendering} {bufsize dsize : ℤ} {first : Bool} {a : Argument} {as : List Argument} {z cs : Bytes}

@[simp] lemma put_length (r : Rendering) (c : UInt8) : (r.put c).text.length = r.text.length + 1 :=
  List.length_append

@[simp] lemma put_reach (r : Rendering) (c : UInt8) : (r.put c).reach = max r.reach (r.text.length + 1) := rfl

lemma puts_eq (h : r.text.length ≤ r.reach) (cs : Bytes) :
    r.puts cs = ⟨r.text ++ cs, max r.reach (r.text.length + cs.length)⟩ := by
  induction cs generalizing r with
  | nil =>
    have hmax : max r.reach r.text.length = r.reach := max_eq_left h
    rw [List.append_nil, List.length_nil, Nat.add_zero, hmax]
    rfl
  | cons c cs ih =>
    have hput : (r.put c).text.length ≤ (r.put c).reach := by simp
    have hstep : r.puts (c :: cs) = (r.put c).puts cs := rfl
    rw [hstep, ih hput]
    simp only [Rendering.put, List.append_assoc, List.singleton_append, List.length_append, List.length_cons,
      List.length_nil, Rendering.mk.injEq, true_and]
    omega

lemma comma_eq (h : r.text.length ≤ r.reach) (first : Bool) : r.comma first =
    ⟨r.text ++ separator first, max r.reach (r.text.length + (separator first).length)⟩ := by
  rw [← puts_eq h]
  cases first <;> rfl

lemma copyString_true {limit : ℤ} (h : (copyString limit z r).1 = true) : copyString limit z r = (true, r.puts z) := by
  induction z generalizing r with
  | nil => rfl
  | cons c z ih =>
    rw [copyString] at h ⊢
    split at h
    · cases h
    · next hlimit =>
      rw [if_neg hlimit, ih h]
      rfl

lemma copyString_taken {limit : ℕ} (h : z = [] ∨ r.text.length + z.length ≤ limit) :
    (copyString limit z r).1 = true := by
  induction z generalizing r with
  | nil => rfl
  | cons c z ih =>
    have hlen := h.resolve_left (List.cons_ne_nil c z)
    rw [List.length_cons] at hlen
    have hput := put_length r c
    rw [copyString, if_neg (by omega)]
    exact ih (.inr (by omega))

lemma copyString_refused {limit : ℕ} (hz : z ≠ []) (h : limit < r.text.length + z.length) :
    (copyString limit z r).1 = false ∧
      (copyString limit z r).2.reach = max r.reach (max (r.text.length + 1) (limit + 1)) := by
  induction z generalizing r with
  | nil => exact absurd rfl hz
  | cons c z ih =>
    rw [List.length_cons] at h
    have hput := put_length r c
    have hreach := put_reach r c
    rw [copyString]
    split
    · refine ⟨rfl, ?_⟩
      rw [hreach]
      omega
    · have hrest : z ≠ [] := by
        rintro rfl
        rw [List.length_nil] at h
        omega
      obtain ⟨hfalse, hmax⟩ := ih (r := r.put c) hrest (by omega)
      exact ⟨hfalse, by omega⟩

def Argument.shown (dsize : ℤ) (a : Argument) : Bytes :=
  if a.isNumber then a.text.take (dsize.toNat - 1) else a.text

/-- An argument that is taken is written behind what stands in the buffer, a number up to `dsize`. -/
lemma render_true (h : r.text.length ≤ r.reach) (htrue : (render bufsize dsize first r a).1 = true) :
    (render bufsize dsize first r a).2 = ⟨r.text ++ (separator first ++ a.shown dsize),
      max r.reach (r.text.length + (separator first).length + (a.shown dsize).length +
        if a.isNumber then 1 else 0)⟩ := by
  have hcomma := comma_eq h first
  have hprint : ∀ text, (r.comma first).print dsize text =
      ⟨r.text ++ (separator first ++ text.take (dsize.toNat - 1)),
        max r.reach (r.text.length + (separator first).length + (text.take (dsize.toNat - 1)).length + 1)⟩ := by
    intro text
    rw [hcomma]
    simp only [Rendering.print, List.append_assoc, List.length_append, Rendering.mk.injEq, true_and]
    omega
  have hquoted : ∀ cs, (((r.comma first).put 0x22).puts cs).put 0x22 =
      ⟨r.text ++ (separator first ++ 0x22 :: (cs ++ [0x22])),
        max r.reach (r.text.length + (separator first).length + (0x22 :: (cs ++ [0x22])).length)⟩ := by
    intro cs
    have hput : ((r.comma first).put 0x22).text.length ≤ ((r.comma first).put 0x22).reach := by simp
    rw [puts_eq hput, hcomma]
    simp only [Rendering.put, List.append_assoc, List.length_append, List.length_cons, List.length_nil,
      List.cons_append, List.nil_append, Rendering.mk.injEq, true_and]
    omega
  cases a with
  | string z =>
    rw [render] at htrue ⊢
    split at htrue
    · cases htrue
    · next hcopy =>
      have hputs := copyString_true (congrArg Prod.fst hcopy)
      obtain rfl := (Prod.mk.inj (hcopy.symm.trans hputs)).2
      exact hquoted _
  | int v | int64 v | double v =>
    rw [render] at htrue ⊢
    split at htrue
    · cases htrue
    · next hroom =>
      rw [if_neg hroom]
      exact hprint _
  | bytes bs size =>
    rw [render] at htrue ⊢
    split at htrue
    · cases htrue
    · next hroom =>
      rw [if_neg hroom]
      exact hquoted _
  | other c hc =>
    cases htrue

lemma reach_le_copyString (limit : ℤ) (z : Bytes) (r : Rendering) : r.reach ≤ (copyString limit z r).2.reach := by
  induction z generalizing r with
  | nil => exact le_rfl
  | cons c z ih =>
    have hput : r.reach ≤ (r.put c).reach := le_max_left _ _
    rw [copyString]
    split
    · exact hput
    · exact hput.trans (ih _)

lemma reach_le_render (h : r.text.length ≤ r.reach) : r.reach ≤ (render bufsize dsize first r a).2.reach := by
  cases htrue : (render bufsize dsize first r a).1 with
  | true =>
    rw [render_true h htrue]
    exact le_max_left _ _
  | false =>
    cases a with
    | string z =>
      have hcomma : r.reach ≤ ((r.comma first).put 0x22).reach := by
        rw [comma_eq h]
        exact (le_max_left _ _).trans (le_max_left _ _)
      have hcopy := hcomma.trans (reach_le_copyString (bufsize - 4) z.bytes _)
      rw [render] at htrue ⊢
      split at htrue
      · next heq =>
        rw [heq] at hcopy
        exact hcopy
      · cases htrue
    | int v | int64 v | double v | bytes bs size =>
      rw [render] at htrue ⊢
      split at htrue
      · next hroom =>
        rw [if_pos hroom]
      · cases htrue
    | other c hc => exact le_rfl

/-- The function takes the arguments that are not refused at this offset. -/
lemma render_taken {bufsize : ℕ} (h4 : 4 ≤ bufsize) (h : r.text.length ≤ r.reach)
    (ha : a.refused bufsize first r.text.length = false) :
    (render bufsize (room bufsize first r.text.length) first r a).1 = true := by
  have hcomma : ((r.comma first).put 0x22).text.length = r.text.length + (separator first).length + 1 := by
    rw [comma_eq h, put_length, List.length_append]
  cases a with
  | string z =>
    have hlimit : (bufsize : ℤ) - 4 = (bufsize - 4 : ℕ) := by omega
    have htaken : (copyString ((bufsize : ℤ) - 4) z.bytes ((r.comma first).put 0x22)).1 = true := by
      rw [hlimit]
      refine copyString_taken ?_
      rw [Argument.refused, decide_eq_false_iff_not, not_and_or, not_not] at ha
      rcases ha with hz | hz
      · exact .inl hz
      · right
        omega
    rw [render, copyString_true htaken]
  | int v | int64 v | double v | bytes bs size =>
    rw [Argument.refused, decide_eq_false_iff_not] at ha
    rw [render, if_neg ha]
  | other c hc => cases ha

/-- Of an argument that is refused it writes a string as far as it goes, and nothing of the others. -/
lemma render_refused {bufsize : ℕ} (h4 : 4 ≤ bufsize) (h : r.text.length ≤ r.reach)
    (ha : a.refused bufsize first r.text.length = true) :
    (render bufsize (room bufsize first r.text.length) first r a).1 = false ∧
      ((render bufsize (room bufsize first r.text.length) first r a).2.reach ≤ bufsize ↔
        r.reach ≤ bufsize ∧ (a.type = 0x73 → r.text.length + (separator first).length + 2 ≤ bufsize)) := by
  cases a with
  | string z =>
    have hcomma := comma_eq h first
    have hlimit : (bufsize : ℤ) - 4 = (bufsize - 4 : ℕ) := by omega
    have hlen : ((r.comma first).put 0x22).text.length = r.text.length + (separator first).length + 1 := by
      rw [hcomma, put_length, List.length_append]
    have hreach : ((r.comma first).put 0x22).reach = max r.reach (r.text.length + (separator first).length + 1) := by
      rw [hcomma, put_reach, List.length_append]
      dsimp only
      omega
    rw [Argument.refused, decide_eq_true_iff] at ha
    obtain ⟨hz, hlong⟩ := ha
    obtain ⟨hfalse, hmax⟩ := @copyString_refused ((r.comma first).put 0x22) z.bytes (bufsize - 4) hz (by omega)
    rw [← hlimit] at hfalse hmax
    have hrender : render bufsize (room bufsize first r.text.length) first r (.string z) =
        (false, (copyString ((bufsize : ℤ) - 4) z.bytes ((r.comma first).put 0x22)).2) := by
      rw [render]
      split
      · next heq => rw [heq]
      · next heq =>
        rw [heq] at hfalse
        cases hfalse
    rw [hrender]
    refine ⟨rfl, ?_⟩
    dsimp only
    rw [hmax, hreach, hlen]
    have htype : (Argument.string z).type = 0x73 := rfl
    simp only [htype, true_imp_iff]
    omega
  | int v | int64 v | double v | bytes bs size =>
    rw [Argument.refused, decide_eq_true_iff] at ha
    rw [render, if_pos ha]
    exact ⟨rfl, iff_self_and.mpr fun _ htype => absurd htype (by simp [Argument.type])⟩
  | other c hc =>
    refine ⟨rfl, iff_self_and.mpr fun _ htype => ?_⟩
    subst htype
    exact absurd (by decide) hc

end Render

/-! ### The loop -/

def texts : Bool → List Argument → Bytes
  | _, [] => []
  | first, a :: as => separator first ++ (a.text ++ texts false as)

def close : Bool × Rendering → Bool × Rendering
  | (false, r) => (false, r)
  | (true, r) => (true, (r.put 0x5d).put 0)

lemma texts_eq_intercalate (args : List Argument) : texts true args = [0x2c].intercalate (args.map Argument.text) := by
  cases args with
  | nil => rfl
  | cons a as =>
    have hrest : ∀ (a : Argument) (as : List Argument),
        [0x2c].intercalate ((a :: as).map Argument.text) = a.text ++ texts false as := by
      intro a as
      induction as generalizing a with
      | nil => simp [texts]
      | cons b bs ih =>
        rw [List.map_cons, List.map_cons, List.intercalate_cons_cons, ← List.map_cons, ih b, List.append_assoc]
        rfl
    rw [hrest a as]
    rfl

section Loop

variable {r : Rendering} {bufsize dsize : ℤ} {first : Bool} {a : Argument} {as : List Argument}

lemma renderAll_refused (h : (render bufsize dsize first r a).1 = false) :
    renderAll bufsize first dsize r (a :: as) = (false, (render bufsize dsize first r a).2) := by
  rw [renderAll]
  split
  · next heq => rw [heq]
  · next heq =>
    rw [heq] at h
    cases h

lemma renderAll_taken (h : (render bufsize dsize first r a).1 = true) :
    renderAll bufsize first dsize r (a :: as) =
      renderAll bufsize false (int32 (bufsize - (render bufsize dsize first r a).2.text.length))
        (render bufsize dsize first r a).2 as := by
  rw [renderAll]
  split
  · next heq =>
    rw [heq] at h
    cases h
  · next heq => rw [heq]

lemma render_written (h : r.text.length ≤ r.reach) (htrue : (render bufsize dsize first r a).1 = true) :
    (render bufsize dsize first r a).2.text.length ≤ (render bufsize dsize first r a).2.reach := by
  rw [render_true h htrue]
  simp only [List.length_append]
  omega

lemma reach_le_renderAll (h : r.text.length ≤ r.reach) (as : List Argument) :
    r.reach ≤ (renderAll bufsize first dsize r as).2.reach := by
  induction as generalizing first dsize r with
  | nil => exact le_rfl
  | cons a as ih =>
    have hstep := @reach_le_render r bufsize dsize first a h
    cases htrue : (render bufsize dsize first r a).1 with
    | false =>
      rw [renderAll_refused htrue]
      exact hstep
    | true =>
      rw [renderAll_taken htrue]
      exact hstep.trans (ih (render_written h htrue))

lemma renderAll_length (h : r.text.length ≤ r.reach) (as : List Argument)
    (htrue : (renderAll bufsize first dsize r as).1 = true) :
    (renderAll bufsize first dsize r as).2.text.length ≤ r.text.length + (texts first as).length := by
  induction as generalizing first dsize r with
  | nil => exact Nat.le_add_right _ _
  | cons a as ih =>
    cases hrender : (render bufsize dsize first r a).1 with
    | false =>
      rw [renderAll_refused hrender] at htrue
      cases htrue
    | true =>
      have hshown : (a.shown dsize).length ≤ a.text.length := by
        unfold Argument.shown
        split
        · exact List.length_take_le' _ _
        · exact le_rfl
      rw [renderAll_taken hrender] at htrue ⊢
      have hlen := ih (render_written h hrender) htrue
      have htext : (render bufsize dsize first r a).2.text.length =
          r.text.length + ((separator first).length + (a.shown dsize).length) := by
        rw [render_true h hrender, List.length_append, List.length_append]
      rw [texts, List.length_append, List.length_append]
      omega

end Loop

/-! ### When the arguments fit -/

section Fits

variable {r : Rendering} {bufsize : ℕ} {first : Bool} {a : Argument} {as : List Argument}

lemma close_reach (out : Bool × Rendering) : out.2.reach ≤ (close out).2.reach := by
  obtain ⟨taken, r⟩ := out
  cases taken with
  | false => exact le_rfl
  | true => exact (le_max_left _ _).trans (le_max_left _ _)

lemma shown_of_not_cut (h : a.cut bufsize first r.text.length = false) :
    a.shown (room bufsize first r.text.length) = a.text := by
  unfold Argument.shown
  split
  · next hnumber =>
    rw [Argument.cut, decide_eq_false_iff_not, not_and, not_le] at h
    have hroom := h hnumber
    exact List.take_of_length_le (by omega)
  · rfl

lemma shown_of_cut (h : a.cut bufsize first r.text.length = true)
    (ha : a.refused bufsize first r.text.length = false) :
    12 ≤ room bufsize first r.text.length ∧ a.isNumber = true ∧
      (a.shown (room bufsize first r.text.length)).length = (room bufsize first r.text.length).toNat - 1 ∧
      (a.shown (room bufsize first r.text.length)).length < a.text.length := by
  rw [Argument.cut, decide_eq_true_iff] at h
  obtain ⟨hnumber, hroom⟩ := h
  have hspace : 12 ≤ room bufsize first r.text.length := by
    cases a with
    | int v | int64 v | double v =>
      rw [Argument.refused, decide_eq_false_iff_not, not_lt] at ha
      omega
    | string z | bytes bs size | other c hc => cases hnumber
  have hlen : (a.shown (room bufsize first r.text.length)).length =
      (room bufsize first r.text.length).toNat - 1 := by
    rw [Argument.shown, if_pos hnumber, List.length_take]
    omega
  exact ⟨hspace, hnumber, hlen, by omega⟩

/-- Only a string or bytes are taken where no more than two bytes are left, and none of them fits. -/
lemma two_of_taken {o : ℕ} (h : a.refused bufsize false o = false) (hroom : bufsize = o + 2) :
    a.isNumber = false ∧ 2 ≤ a.text.length := by
  have hspace : room bufsize false o = 2 := by
    rw [room, if_neg Bool.false_ne_true]
    omega
  cases a with
  | int v | int64 v | double v =>
    rw [Argument.refused, decide_eq_false_iff_not, hspace] at h
    exact absurd (by decide) h
  | string z => exact ⟨rfl, by simp [Argument.text]⟩
  | bytes bs size => exact ⟨rfl, by simp [Argument.text]⟩
  | other c hc => cases h

/-- A first number that is cut off leaves two bytes: the text is not whole, unless the next argument is refused
before anything of it is written. -/
lemma renderAll_cut (h4 : 4 ≤ bufsize) (hr : r.text.length ≤ r.reach) (hin : r.reach ≤ bufsize)
    (hlen : r.text.length + 2 = bufsize) {text : Bytes} (hcut : r.text.length < text.length) :
    (close (renderAll bufsize false 2 r as)).2.reach ≤ bufsize ∧
      ((renderAll bufsize false 2 r as).1 = true →
        (renderAll bufsize false 2 r as).2.text = text ++ texts false as) ↔
      ∃ a' ∈ as.head?, a'.refused bufsize false (bufsize - 2) ∧ a'.type ≠ 0x73 := by
  have hshort : (renderAll bufsize false 2 r as).1 = true →
      (renderAll bufsize false 2 r as).2.text ≠ text ++ texts false as := by
    intro htrue htext
    have hle := renderAll_length hr as htrue
    rw [htext, List.length_append] at hle
    omega
  have hspace : room bufsize false r.text.length = 2 := by
    rw [room, if_neg Bool.false_ne_true]
    omega
  have hoffset : bufsize - 2 = r.text.length := by omega
  cases as with
  | nil =>
    refine iff_of_false (fun hboth => hshort rfl (hboth.2 rfl)) ?_
    rintro ⟨a', hmem, -⟩
    cases hmem
  | cons a as =>
    rw [List.head?_cons, hoffset]
    simp only [Option.mem_some_iff, exists_eq_left']
    cases ha : a.refused bufsize false r.text.length with
    | true =>
      obtain ⟨hfalse, hreach⟩ := render_refused h4 hr ha
      rw [hspace] at hfalse hreach
      rw [renderAll_refused hfalse, close, hreach]
      have hsep : (separator false).length = 1 := rfl
      rw [hsep]
      constructor
      · rintro ⟨⟨-, htype⟩, -⟩
        refine ⟨rfl, fun h73 => ?_⟩
        have := htype h73
        omega
      · rintro ⟨-, htype⟩
        exact ⟨⟨hin, fun h73 => absurd h73 htype⟩, fun htrue => absurd htrue Bool.false_ne_true⟩
    | false =>
      refine iff_of_false ?_ (fun h => Bool.false_ne_true h.1)
      rintro ⟨hinside, -⟩
      have htrue := render_taken h4 hr ha
      rw [hspace] at htrue
      obtain ⟨hnumber, htwo⟩ := two_of_taken ha (by omega)
      have hstep := (close_reach _).trans hinside
      rw [renderAll_taken htrue] at hstep
      have hreach := (reach_le_renderAll (render_written hr htrue) as).trans hstep
      rw [render_true hr htrue, Argument.shown, hnumber] at hreach
      have hsep : (separator false).length = 1 := rfl
      simp only [Bool.false_eq_true, if_false, hsep] at hreach
      omega

/-- The first argument is not cut off. -/
def Uncut (bufsize : ℕ) (as : List Argument) : Prop :=
  ∀ a ∈ as.head?, a.refused bufsize true 1 = false → a.cut bufsize true 1 = false

/-- **The loop stays in the buffer just when the arguments fit, and then they are whole**, unless the first one
is cut off. -/
lemma renderAll_uncut (h4 : 4 ≤ bufsize) (hint : bufsize < 2 ^ 31) (hr : r.text.length ≤ r.reach)
    (hin : r.reach ≤ bufsize) (hfirst : first = true → r.text.length = 1 ∧ Uncut bufsize as) :
    ((close (renderAll bufsize first (room bufsize first r.text.length) r as)).2.reach ≤ bufsize ↔
        Fits bufsize first r.text.length as) ∧
      (Fits bufsize first r.text.length as →
        (renderAll bufsize first (room bufsize first r.text.length) r as).1 = true →
        (renderAll bufsize first (room bufsize first r.text.length) r as).2.text = r.text ++ texts first as) := by
  induction as generalizing first r with
  | nil =>
    rw [renderAll, close, Fits, texts, List.append_nil]
    simp only [put_reach, put_length, implies_true, and_true]
    omega
  | cons a as ih =>
    rw [Fits]
    cases ha : a.refused bufsize first r.text.length with
    | true =>
      obtain ⟨hfalse, hreach⟩ := render_refused h4 hr ha
      rw [renderAll_refused hfalse, close, hreach, if_pos rfl]
      simp [hin]
    | false =>
      have htrue := render_taken h4 hr ha
      have hrender := render_true hr htrue
      have hwritten := render_written hr htrue
      rw [if_neg Bool.false_ne_true, renderAll_taken htrue]
      cases hcut : a.cut bufsize first r.text.length with
      | true =>
        -- the null byte is behind the end
        obtain ⟨hspace, hnumber, hshown, -⟩ := shown_of_cut hcut ha
        have hlater : first = false := by
          by_contra hne
          rw [Bool.not_eq_false] at hne
          obtain ⟨hone, huncut⟩ := hfirst hne
          rw [hne, hone] at ha hcut
          exact Bool.false_ne_true ((huncut a rfl ha).symm.trans hcut)
        subst hlater
        rw [if_pos rfl]
        have hreach : bufsize < (render bufsize (room bufsize false r.text.length) false r a).2.reach := by
          rw [hrender, hnumber, hshown]
          have hsep : (separator false).length = 1 := rfl
          rw [hsep, if_pos rfl]
          rw [room, if_neg Bool.false_ne_true] at hspace ⊢
          exact lt_max_of_lt_right (by omega)
        refine ⟨iff_of_false (fun hinside => ?_) fun h => Bool.false_ne_true h.1, fun h => absurd h.1 Bool.false_ne_true⟩
        exact absurd ((reach_le_renderAll hwritten as).trans ((close_reach _).trans hinside)) (not_le.mpr hreach)
      | false =>
        rw [shown_of_not_cut hcut] at hrender
        rw [if_neg Bool.false_ne_true]
        have hlength : (render bufsize (room bufsize first r.text.length) first r a).2.text.length =
            r.text.length + (separator first).length + a.text.length := by
          rw [hrender, List.length_append, List.length_append, Nat.add_assoc]
        have hreach : (render bufsize (room bufsize first r.text.length) first r a).2.reach =
            max r.reach (r.text.length + (separator first).length + a.text.length +
              if a.isNumber then 1 else 0) := by
          rw [hrender]
        have htext : (render bufsize (room bufsize first r.text.length) first r a).2.text =
            r.text ++ (separator first ++ a.text) := by
          rw [hrender]
        clear hrender
        generalize (render bufsize (room bufsize first r.text.length) first r a).2 = r' at *
        by_cases hfits : r.text.length + (separator first).length + a.text.length +
            (if a.isNumber then 1 else 0) ≤ bufsize
        · have hin' : r'.reach ≤ bufsize := by
            rw [hreach]
            exact max_le hin hfits
          have hdsize : int32 ((bufsize : ℤ) - r'.text.length) = room bufsize false r'.text.length := by
            rw [room, if_neg Bool.false_ne_true, int32]
            exact Int.bmod_eq_of_le_mul_two (by omega) (by omega)
          have htexts : r.text ++ texts first (a :: as) = r'.text ++ texts false as := by
            rw [texts, htext, List.append_assoc, List.append_assoc]
          have hrest := ih hwritten hin' fun h => absurd h Bool.false_ne_true
          rw [hdsize, htexts, and_iff_right hfits, ← hlength]
          exact hrest
        · refine ⟨iff_of_false (fun hinside => ?_) fun h => hfits h.1, fun h => absurd h.1 hfits⟩
          have hstep := (reach_le_renderAll hwritten as).trans ((close_reach _).trans hinside)
          rw [hreach] at hstep
          exact hfits ((le_max_right _ _).trans hstep)

lemma renderAll_first_cut (h4 : 4 ≤ bufsize) (ha : a.refused bufsize true 1 = false)
    (hcut : a.cut bufsize true 1 = true) :
    (close (renderAll bufsize true (bufsize - 2) ⟨[0x5b], 1⟩ (a :: as))).2.reach ≤ bufsize ∧
      ((renderAll bufsize true (bufsize - 2) ⟨[0x5b], 1⟩ (a :: as)).1 = true →
        (renderAll bufsize true (bufsize - 2) ⟨[0x5b], 1⟩ (a :: as)).2.text = 0x5b :: texts true (a :: as)) ↔
      Fits bufsize true 1 (a :: as) := by
  have hr : (Rendering.text ⟨[0x5b], 1⟩).length ≤ (Rendering.mk [0x5b] 1).reach := le_rfl
  obtain ⟨hspace, hnumber, hshown, hless⟩ := @shown_of_cut ⟨[0x5b], 1⟩ _ _ _ hcut ha
  have htrue := @render_taken ⟨[0x5b], 1⟩ _ _ _ h4 hr ha
  have hroom : room bufsize true (Rendering.text ⟨[0x5b], 1⟩).length = (bufsize : ℤ) - 2 := rfl
  rw [hroom] at hspace hshown hless htrue
  have hrender := render_true hr htrue
  have hwritten := render_written hr htrue
  have hlength : (render bufsize (bufsize - 2) true ⟨[0x5b], 1⟩ a).2.text.length = bufsize - 2 := by
    rw [hrender]
    simp only [separator, if_true, List.nil_append, List.length_append, List.length_singleton, hshown]
    omega
  have hreach : (render bufsize (bufsize - 2) true ⟨[0x5b], 1⟩ a).2.reach ≤ bufsize := by
    rw [hrender, hnumber]
    simp only [separator, if_true, List.length_nil, List.length_singleton, hshown]
    omega
  have hshort : (render bufsize (bufsize - 2) true ⟨[0x5b], 1⟩ a).2.text.length < (0x5b :: a.text).length := by
    rw [hlength, List.length_cons]
    omega
  have hdsize : int32 ((bufsize : ℤ) - (bufsize - 2 : ℕ)) = 2 := by
    have htwo : (bufsize : ℤ) - (bufsize - 2 : ℕ) = 2 := by omega
    rw [htwo]
    rfl
  rw [renderAll_taken htrue, hlength, hdsize, Fits, ha, hcut, if_neg Bool.false_ne_true, if_pos rfl]
  exact (renderAll_cut h4 hwritten hreach (by omega) hshort).trans (and_iff_right rfl).symm

end Fits

lemma argumentsToJson_eq (bufsize : ℤ) (args : List Argument) :
    argumentsToJson bufsize args = close (renderAll bufsize true (bufsize - 2) ⟨[0x5b], 1⟩ args) := by
  unfold argumentsToJson close
  rfl

lemma close_true {out : Bool × Rendering} (h : (close out).1 = true) :
    out.1 = true ∧ (close out).2.text = out.2.text ++ [0x5d, 0] ∧ out.2.text.length + 2 ≤ (close out).2.reach := by
  obtain ⟨taken, r⟩ := out
  cases taken with
  | false => cases h
  | true =>
    refine ⟨rfl, List.append_assoc _ _ _, ?_⟩
    have hlast : (r.put 0x5d).text.length + 1 ≤ ((r.put 0x5d).put 0).reach := le_max_right _ _
    rw [put_length] at hlast
    exact hlast

lemma rendersInside_iff_loop {bufsize : ℕ} {args : List Argument} : RendersInside bufsize args ↔
    (close (renderAll bufsize true (bufsize - 2) ⟨[0x5b], 1⟩ args)).2.reach ≤ bufsize ∧
      ((renderAll bufsize true (bufsize - 2) ⟨[0x5b], 1⟩ args).1 = true →
        (renderAll bufsize true (bufsize - 2) ⟨[0x5b], 1⟩ args).2.text = 0x5b :: texts true args) := by
  have hout := argumentsToJson_eq bufsize args
  generalize renderAll bufsize true (bufsize - 2) ⟨[0x5b], 1⟩ args = out at hout
  have hclosed : out.1 = true → (close out).1 = true := by
    obtain ⟨taken, r⟩ := out
    rintro rfl
    rfl
  constructor
  · rintro ⟨hinside, -, hwhole⟩
    rw [hout] at hinside hwhole
    refine ⟨hinside, fun htrue => ?_⟩
    have hall := hwhole (hclosed htrue)
    rw [(close_true (hclosed htrue)).2.1, ← texts_eq_intercalate, ← List.cons_append] at hall
    exact List.append_cancel_right hall
  · rintro ⟨hinside, hwhole⟩
    refine ⟨by rw [hout]; exact hinside, fun htrue => ?_, fun htrue => ?_⟩
    · rw [hout] at htrue ⊢
      obtain ⟨-, htext, hreach⟩ := close_true htrue
      refine ⟨out.2.text ++ [0x5d], by rw [htext, List.append_assoc]; rfl, ?_⟩
      rw [List.length_append, List.length_singleton]
      omega
    · rw [hout] at htrue ⊢
      obtain ⟨htaken, htext, -⟩ := close_true htrue
      rw [htext, hwhole htaken, texts_eq_intercalate, List.cons_append]

/-- **The arguments for which the rendering stays in its buffer.** -/
theorem rendersInside_iff (bufsize : ℕ) (args : List Argument) (h4 : 4 ≤ bufsize) (hint : bufsize < 2 ^ 31) :
    RendersInside bufsize args ↔ Fits bufsize true 1 args := by
  rw [rendersInside_iff_loop]
  by_cases huncut : Uncut bufsize args
  · obtain ⟨hreach, hwhole⟩ := @renderAll_uncut ⟨[0x5b], 1⟩ bufsize true args h4 hint le_rfl
      (by dsimp only; omega) fun _ => ⟨rfl, huncut⟩
    constructor
    · exact fun h => hreach.mp h.1
    · exact fun h => ⟨hreach.mpr h, hwhole h⟩
  · simp only [Uncut, not_forall] at huncut
    obtain ⟨a, hhead, ha, hcut⟩ := huncut
    obtain ⟨as, rfl⟩ := List.head?_eq_some_iff.mp hhead
    exact renderAll_first_cut h4 ha (Bool.eq_true_of_not_eq_false hcut)

theorem rendersInside_iff_default : RendersInside 512 [.int (-5)] ↔ Fits 512 true 1 [.int (-5)] :=
  rendersInside_iff 512 _ (by decide) (by decide)

def fullArguments : List Argument :=
  List.replicate 41 (.int (-2147483648)) ++ List.replicate 4 (.int 7) ++ [.int (-2147483648)]

/-- **Two bytes are written behind the buffer** for integers that end where it does, and a number of fourteen
digits is cut off in a buffer of fourteen bytes. -/
theorem integers_at_the_end_overflow :
    (argumentsToJson 512 fullArguments).1 = true ∧ (argumentsToJson 512 fullArguments).2.reach = 514 ∧
      ¬ RendersInside 512 fullArguments ∧ (argumentsToJson 14 [.int64 12345678901234]).1 = true ∧
      (argumentsToJson 14 [.int64 12345678901234]).2.text =
        [0x5b, 0x31, 0x32, 0x33, 0x34, 0x35, 0x36, 0x37, 0x38, 0x39, 0x30, 0x31, 0x5d, 0x00] ∧
      ¬ RendersInside 14 [.int64 12345678901234] := by
  obtain ⟨hfull, hreach⟩ : (argumentsToJson 512 fullArguments).1 = true ∧
      (argumentsToJson 512 fullArguments).2.reach = 514 := by decide +kernel
  have htrue : (argumentsToJson 14 [.int64 12345678901234]).1 = true := by decide +kernel
  have htext : (argumentsToJson 14 [.int64 12345678901234]).2.text =
      [0x5b, 0x31, 0x32, 0x33, 0x34, 0x35, 0x36, 0x37, 0x38, 0x39, 0x30, 0x31, 0x5d, 0x00] := by decide +kernel
  refine ⟨hfull, hreach, fun h => ?_, htrue, htext, fun h => ?_⟩
  · have hinside := h.inside
    have hcast : ((512 : ℕ) : ℤ) = 512 := rfl
    rw [hcast, hreach] at hinside
    exact absurd hinside (by decide)
  · have hwhole := h.whole htrue
    have hcast : ((14 : ℕ) : ℤ) = 14 := rfl
    rw [hcast, htext] at hwhole
    exact absurd hwhole (by decide +kernel)

end Libaergo.Arguments
