import Libaergo.Lib.Bytes

/-!
# The write callback (`socket.c`)

`server_response_callback` is called with a chunk of the body and collects the gRPC messages in it.  It
loops: a pass begins a message or continues one, copies what the chunk has of it, and hands the whole
message to `process_response`.  The size of a new message is read from the four bytes behind the first
of the chunk, whether the chunk has them or not, so what lies in memory behind the chunk is a parameter.

The counters are C ints and the sizes `size_t`; `toInt` and `toSize` are the conversions.
-/

namespace Libaergo

open Lib

def toInt (n : ℤ) : ℤ := Int.bmod n (2 ^ 32)

def toSize (n : ℤ) : ℕ := (n % 2 ^ 64).toNat

lemma toInt_spec (x : ℤ) : ∃ k, toInt x = x + 2 ^ 32 * k ∧ -2 ^ 31 ≤ toInt x ∧ toInt x < 2 ^ 31 := by
  have hlo := Int.le_bmod (x := x) (m := 2 ^ 32) (by decide)
  have hhi := Int.bmod_lt (x := x) (m := 2 ^ 32) (by decide)
  refine ⟨-Int.bdiv x (2 ^ 32), ?_, ?_, ?_⟩
  · unfold toInt
    rw [Int.bmod_eq_self_sub_mul_bdiv]
    push_cast
    ring
  · exact hlo
  · exact hhi

/-- The fields of `struct request` that the callback writes.  `response` is a null pointer or what has
been copied to it. -/
structure Receiver where
  response : Option Bytes
  responseSize : ℤ
  remainingSize : ℤ
  received : ℤ
  processed : Bool
  success : Bool

/-- What the callback calls, over a state of its own: the allocation of a message of this size,
`process_response` on the whole message and the value of `received`, and `process_request_error`. -/
structure Handlers (σ : Type*) where
  malloc : ℕ → Bool
  processResponse : Bytes → ℤ → σ → Bool × σ
  processRequestError : String → σ → σ

/-- Where a pass of the callback leaves: to another pass, or out with the returned size. -/
inductive Pass (σ : Type*) where
  | again (r : Receiver) (s : σ) (ptr size : ℕ)
  | done (r : Receiver) (s : σ) (ret : ℕ)

section Callback

variable {σ : Type*} (H : Handlers σ) (mem : ℕ → UInt8)

/-- `copy_be32(&msg_size, ptr + 1); msg_size += 5` -/
def msgSize (ptr : ℕ) : ℕ :=
  (beNat [mem (ptr + 1), mem (ptr + 2), mem (ptr + 3), mem (ptr + 4)] + 5) % 2 ^ 32

/-- `if (size > n) … else …`: the bytes to process of the message, of which `n` are missing, what then
remains of it, and what remains of the chunk. -/
def split (n size : ℕ) : ℕ × ℤ × ℕ :=
  if n < size then (n, 0, size - n) else (size, toInt (n - size : ℕ), 0)

/-- The bytes `[ptr, ptr + n)` of the chunk. -/
def bytesAt (ptr n : ℕ) : Bytes := (List.range n).map fun i => mem (ptr + i)

/-- The second half of a pass: copy, and process the message when it is whole. -/
def Receiver.copy (r : Receiver) (s : σ) (total ptr : ℕ) (what : ℕ × ℤ × ℕ) : Pass σ :=
  let r := { r with
    response := r.response.map (· ++ bytesAt mem ptr what.1)
    responseSize := toInt (r.responseSize + what.1)
    received := toInt (r.received + what.1)
    remainingSize := what.2.1 }
  if what.2.1 = 0 then
    let (ok, s) := H.processResponse (r.response.getD []) r.received s
    let r := { r with
      processed := true, success := ok, response := none, responseSize := 0, received := 0 }
    if 0 < what.2.2 then .again r s (ptr + what.1) what.2.2 else .done r s total
  else .done r s total

/-- A pass, from `loc_again`. -/
def Receiver.pass (r : Receiver) (s : σ) (total ptr size : ℕ) : Pass σ :=
  match r.response with
  | none =>
    let what := split (msgSize mem ptr) size
    if H.malloc (msgSize mem ptr) then
      Receiver.copy H mem { r with response := some [] } s total ptr what
    else
      .done { r with remainingSize := what.2.1, processed := true }
        (H.processRequestError "out of memory" s) 0
  | some _ => Receiver.copy H mem r s total ptr (split (toSize r.remainingSize) size)

/-- At most `k` passes. -/
def passes (total : ℕ) : ℕ → Receiver → σ → ℕ → ℕ → Option (Receiver × σ × ℕ)
  | 0, _, _, _, _ => none
  | k + 1, r, s, ptr, size =>
    match r.pass H mem s total ptr size with
    | .again r s ptr size => passes total k r s ptr size
    | .done r s ret => some (r, s, ret)

end Callback

/-- A chunk as the callback finds it in memory: its bytes, and what lies behind them. -/
structure Chunk where
  bytes : Bytes
  after : ℕ → UInt8

/-- The byte at an offset from the start of the chunk. -/
def Chunk.mem (c : Chunk) (i : ℕ) : UInt8 :=
  if i < c.bytes.length then c.bytes.getD i 0 else c.after (i - c.bytes.length)

section Feed

variable {σ : Type*} (H : Handlers σ)

/-- **`server_response_callback`**, or none where it never returns: a pass that leaves the loop takes a
byte at least, the first one of a call excepted (`passes_none`). -/
def serverResponseCallback (c : Chunk) (r : Receiver) (s : σ) : Option (Receiver × σ × ℕ) :=
  passes H c.mem c.bytes.length (c.bytes.length + 2) r s 0 c.bytes.length

def feed : List Chunk → Receiver → σ → Option (Receiver × σ)
  | [], r, s => some (r, s)
  | c :: cs, r, s => (serverResponseCallback H c r s).bind fun p => feed cs p.1 p.2.1

end Feed

/-! ### The bound on the passes -/

section Bound

variable {σ : Type*} {H : Handlers σ} {mem : ℕ → UInt8} {r r' : Receiver} {s s' : σ}
  {total ptr ptr' size size' : ℕ}

/-- A pass that goes back to `loc_again` with `n` bytes taken: it took a whole message and there is
more. -/
lemma copy_again {n : ℕ}
    (h : Receiver.copy H mem r s total ptr (split n size) = .again r' s' ptr' size') :
    n < size ∧ ptr' = ptr + n ∧ size' = size - n ∧ r'.response = none := by
  unfold split at h
  split at h
  case isTrue hn =>
    simp only [Receiver.copy, if_true] at h
    split at h
    · obtain ⟨rfl, -, rfl, rfl⟩ := Pass.again.inj h
      exact ⟨hn, rfl, rfl, rfl⟩
    · cases h
  case isFalse hn =>
    simp only [Receiver.copy, lt_irrefl, if_false] at h
    split at h <;> cases h

lemma pass_again_new (hr : r.response = none)
    (h : r.pass H mem s total ptr size = .again r' s' ptr' size') :
    H.malloc (msgSize mem ptr) = true ∧ msgSize mem ptr < size ∧
      ptr' = ptr + msgSize mem ptr ∧ size' = size - msgSize mem ptr ∧ r'.response = none := by
  simp only [Receiver.pass, hr] at h
  split at h
  case isTrue hm => exact ⟨hm, copy_again h⟩
  case isFalse => cases h

lemma pass_again (h : r.pass H mem s total ptr size = .again r' s' ptr' size') :
    size' ≤ size ∧ r'.response = none := by
  cases hr : r.response with
  | none =>
    obtain ⟨-, -, -, hsize, hnone⟩ := pass_again_new hr h
    exact ⟨by omega, hnone⟩
  | some bs =>
    simp only [Receiver.pass, hr] at h
    obtain ⟨-, -, hsize, hnone⟩ := copy_again h
    exact ⟨by omega, hnone⟩

lemma passes_mono {k m : ℕ} (h : passes H mem total (k + m) r s ptr size = none) :
    passes H mem total k r s ptr size = none := by
  induction k generalizing r s ptr size with
  | zero => rfl
  | succ k ih =>
    rw [Nat.add_right_comm] at h
    simp only [passes] at h ⊢
    split at h
    · exact ih h
    · cases h

lemma passes_stuck (hm : H.malloc 0 = true) (hz : msgSize mem ptr = 0) (hs : 0 < size) (k : ℕ) :
    ∀ {r : Receiver} {s : σ}, r.response = none →
      passes H mem total k r s ptr size = none := by
  induction k with
  | zero => intro r s _; rfl
  | succ k ih =>
    intro r s hr
    simp only [passes]
    split
    case h_1 hpass =>
      obtain ⟨-, -, hptr, hsize, hnone⟩ := pass_again_new hr hpass
      rw [hz, Nat.add_zero] at hptr
      rw [hz, Nat.sub_zero] at hsize
      rw [hptr, hsize]
      exact ih hnone
    case h_2 hpass =>
      simp [Receiver.pass, hr, hz, hm, Receiver.copy, split, hs] at hpass

lemma passes_none_new (hr : r.response = none)
    (h : passes H mem total (size + 1) r s ptr size = none) (k : ℕ) :
    passes H mem total k r s ptr size = none := by
  induction size using Nat.strongRecOn generalizing r s ptr k with
  | ind size ih =>
    cases k with
    | zero => rfl
    | succ k =>
      simp only [passes] at h ⊢
      split at h
      case h_2 => cases h
      case h_1 r' s' ptr' size' hpass =>
        obtain ⟨hm, hlt, hptr, hsize, hnone⟩ := pass_again_new hr hpass
        by_cases hz : msgSize mem ptr = 0
        · rw [hz] at hm hptr hsize
          exact passes_stuck hm (by rw [hptr, Nat.add_zero, hz]) (by omega) k hnone
        · obtain ⟨m, hm⟩ : ∃ m, size = size' + 1 + m := ⟨size - (size' + 1), by omega⟩
          have hshort : passes H mem total (size' + 1) r' s' ptr' size' = none := by
            rw [hm] at h
            exact passes_mono h
          exact ih size' (by omega) hnone hshort k

/-- **The bound on the passes is no restriction**: a loop that has not ended by then never ends. -/
theorem passes_none (h : passes H mem total (size + 2) r s ptr size = none) (k : ℕ) :
    passes H mem total k r s ptr size = none := by
  cases k with
  | zero => rfl
  | succ k =>
    simp only [passes] at h ⊢
    split at h
    case h_2 => cases h
    case h_1 r' s' ptr' size' hpass =>
      obtain ⟨hle, hnone⟩ := pass_again hpass
      obtain ⟨m, hm⟩ : ∃ m, size + 1 = size' + 1 + m := ⟨size - size', by omega⟩
      have hlong : passes H mem total (size' + 1 + m) r' s' ptr' size' = none := by
        rw [← hm]
        exact h
      exact passes_none_new hnone (passes_mono hlong) k

end Bound

end Libaergo
