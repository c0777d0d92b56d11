import Libaergo.Socket.Receive

/-!
# Frames and chunks

The byte stream of a response is a sequence of gRPC frames, and the write callback gets it in chunks.
Feeding the chunks hands every frame to `process_response` once, in order and whole, as long as no cut
falls strictly inside the five bytes of a header (`feed_deliver`).  A cut there makes the callback read
the size of the frame partly from behind the chunk, and memory there can spoil the delivery: the
condition is exact (`chunking_iff`).
-/

namespace Libaergo

open Lib

/-- A gRPC frame whose size an `int` holds. -/
structure GrpcFrame where
  flag : UInt8
  payload : Bytes
  size_lt : payload.length + 5 < 2 ^ 31

/-- The flag, the length in four bytes, and the payload. -/
def GrpcFrame.bytes (f : GrpcFrame) : Bytes := (f.flag :: beBytes 4 f.payload.length) ++ f.payload

def stream (fs : List GrpcFrame) : Bytes := fs.flatMap GrpcFrame.bytes

/-- The position of the stream is strictly inside the five bytes of a header. -/
def InHeader : List GrpcFrame → ℕ → Prop
  | [], _ => False
  | f :: fs, p => if p < f.bytes.length then 0 < p ∧ p < 5 else InHeader fs (p - f.bytes.length)

/-- One of the cuts of the chunks is inside a header. -/
def CutInHeader (frames : List GrpcFrame) (chunks : List Bytes) : Prop :=
  ∃ c₁ c₂, chunks = c₁ ++ c₂ ∧ InHeader frames c₁.flatten.length

/-- The state after `process_response` has seen the frames. -/
def deliver {σ : Type*} (H : Handlers σ) (s : σ) (fs : List GrpcFrame) : σ :=
  fs.foldl (fun s f => (H.processResponse f.bytes f.bytes.length s).2) s

/-- Nothing of a message has been received. -/
structure Between (r : Receiver) : Prop where
  response : r.response = none
  responseSize : r.responseSize = 0
  received : r.received = 0

/-- These bytes of a message have been received. -/
structure Holds (r : Receiver) (pre : Bytes) : Prop where
  response : r.response = some pre
  responseSize : r.responseSize = pre.length
  received : r.received = pre.length

/-! ### Frames -/

@[simp] lemma GrpcFrame.bytes_length (f : GrpcFrame) : f.bytes.length = f.payload.length + 5 := by
  simp [GrpcFrame.bytes]
  omega

@[simp] lemma stream_nil : stream [] = [] := rfl

@[simp] lemma stream_cons (f : GrpcFrame) (fs : List GrpcFrame) :
    stream (f :: fs) = f.bytes ++ stream fs := rfl

lemma stream_append (fs gs : List GrpcFrame) : stream (fs ++ gs) = stream fs ++ stream gs := by
  simp [stream]

lemma length_le_stream (fs : List GrpcFrame) : fs.length ≤ (stream fs).length := by
  induction fs with
  | nil => simp
  | cons f fs ih =>
    simp only [stream_cons, List.length_append, List.length_cons, GrpcFrame.bytes_length]
    omega

lemma inHeader_append (fs gs : List GrpcFrame) (p : ℕ) :
    InHeader (fs ++ gs) ((stream fs).length + p) ↔ InHeader gs p := by
  induction fs with
  | nil => simp
  | cons f fs ih =>
    rw [List.cons_append, InHeader, stream_cons, List.length_append, if_neg (by omega)]
    have hp : f.bytes.length + (stream fs).length + p - f.bytes.length = (stream fs).length + p := by
      omega
    rw [hp]
    exact ih

lemma not_inHeader_zero (fs : List GrpcFrame) : ¬ InHeader fs 0 := by
  cases fs with
  | nil => exact id
  | cons f fs =>
    rw [InHeader, if_pos (by simp)]
    omega

/-- A piece of a frame ends inside its header when it is shorter. -/
lemma inHeader_piece {f : GrpcFrame} {fs : List GrpcFrame} {piece rest : Bytes}
    (hf : f.bytes = piece ++ rest) (hne : piece ≠ []) :
    InHeader (f :: fs) piece.length ↔ piece.length < 5 := by
  have hpos : 0 < piece.length := List.length_pos_iff.mpr hne
  have hlen : f.payload.length + 5 = piece.length + rest.length := by
    rw [← f.bytes_length, hf, List.length_append]
  rw [InHeader]
  split
  case isTrue => simp [hpos]
  case isFalse h =>
    have hwhole : piece.length - f.bytes.length = 0 := by
      rw [f.bytes_length] at h ⊢
      omega
    rw [hwhole]
    refine iff_of_false (not_inHeader_zero fs) ?_
    rw [f.bytes_length] at h
    omega

lemma stream_cut {fs : List GrpcFrame} {c rest : Bytes} (h : stream fs = c ++ rest) (hne : c ≠ []) :
    ∃ f₁ f f₂ piece rest₁, fs = f₁ ++ f :: f₂ ∧ c = stream f₁ ++ piece ∧ piece ≠ [] ∧
      f.bytes = piece ++ rest₁ ∧ rest = rest₁ ++ stream f₂ := by
  induction fs generalizing c with
  | nil => simp [hne] at h
  | cons f fs ih =>
    rw [stream_cons] at h
    by_cases hle : c.length ≤ f.bytes.length
    · -- the beginning ends in the first frame
      obtain ⟨rest₁, hf⟩ : c <+: f.bytes :=
        List.prefix_of_prefix_length_le ⟨rest, rfl⟩ (h ▸ List.prefix_append ..) hle
      refine ⟨[], f, fs, c, rest₁, rfl, by simp, hne, hf.symm, ?_⟩
      rw [← hf, List.append_assoc] at h
      exact (List.append_cancel_left h).symm
    · obtain ⟨c', hc⟩ : f.bytes <+: c :=
        List.prefix_of_prefix_length_le (h ▸ List.prefix_append ..) ⟨rest, rfl⟩ (by omega)
      rw [← hc, List.append_assoc] at h
      have hne' : c' ≠ [] := by
        rintro rfl
        rw [List.append_nil] at hc
        rw [hc] at hle
        exact hle le_rfl
      obtain ⟨f₁, g, f₂, piece, rest₁, rfl, rfl, hp, hg, hrest⟩ :=
        ih (List.append_cancel_left h) hne'
      refine ⟨f :: f₁, g, f₂, piece, rest₁, rfl, ?_, hp, hg, hrest⟩
      rw [← hc, stream_cons, List.append_assoc]

/-! ### Memory -/

section Memory

variable {mem : ℕ → UInt8}

@[simp] lemma bytesAt_length (ptr n : ℕ) : (bytesAt mem ptr n).length = n := by simp [bytesAt]

lemma bytesAt_add (ptr m n : ℕ) :
    bytesAt mem ptr (m + n) = bytesAt mem ptr m ++ bytesAt mem (ptr + m) n := by
  simp [bytesAt, List.range_add, Function.comp_def, Nat.add_assoc]

/-- The bytes stand in memory from there on. -/
def StandsAt (mem : ℕ → UInt8) (ptr : ℕ) (bs : Bytes) : Prop := bytesAt mem ptr bs.length = bs

lemma standsAt_append {ptr : ℕ} {as bs : Bytes} :
    StandsAt mem ptr (as ++ bs) ↔ StandsAt mem ptr as ∧ StandsAt mem (ptr + as.length) bs := by
  unfold StandsAt
  rw [List.length_append, bytesAt_add]
  constructor
  · intro h
    exact List.append_inj h (by simp)
  · rintro ⟨ha, hb⟩
    rw [ha, hb]

lemma Chunk.standsAt (c : Chunk) : StandsAt c.mem 0 c.bytes := by
  refine List.ext_getElem (by simp) fun i hi hi' => ?_
  simp only [bytesAt, List.getElem_map, List.getElem_range, Nat.zero_add, Chunk.mem]
  rw [if_pos hi', List.getD_eq_getElem?_getD, List.getElem?_eq_getElem hi', Option.getD_some]

lemma msgSize_header {ptr len : ℕ} {flag : UInt8} (hlen : len + 5 < 2 ^ 31)
    (h : StandsAt mem ptr (flag :: beBytes 4 len)) : msgSize mem ptr = len + 5 := by
  have hfive : bytesAt mem ptr 5 =
      [mem ptr, mem (ptr + 1), mem (ptr + 2), mem (ptr + 3), mem (ptr + 4)] := rfl
  have hbytes : [mem (ptr + 1), mem (ptr + 2), mem (ptr + 3), mem (ptr + 4)] = beBytes 4 len := by
    rw [StandsAt, List.length_cons, beBytes_length, hfive] at h
    exact (List.cons.inj h).2
  rw [msgSize, hbytes, beNat_beBytes]
  omega

end Memory

/-! ### Passes -/

section Passes

variable {σ : Type*} {H : Handlers σ} {mem : ℕ → UInt8} {r : Receiver} {s : σ} {pre : Bytes}
  {total ptr size n : ℕ}

lemma toInt_of_lt {n : ℕ} (h : n < 2 ^ 31) : toInt n = n := by
  unfold toInt
  exact Int.bmod_eq_of_le_mul_two (by omega) (by omega)

lemma toSize_of_lt {n : ℕ} (h : n < 2 ^ 31) : toSize n = n := by
  unfold toSize
  omega

/-- The next pass takes the message of which `pre` is here and `n` bytes are missing. -/
inductive Pending (H : Handlers σ) (mem : ℕ → UInt8) (ptr : ℕ) (r : Receiver) : Bytes → ℕ → Prop
  | new {n : ℕ} : Between r → msgSize mem ptr = n → H.malloc n = true → Pending H mem ptr r [] n
  | rest {pre : Bytes} {n : ℕ} : Holds r pre → r.remainingSize = n → Pending H mem ptr r pre n

lemma Pending.pass (h : Pending H mem ptr r pre n) (hn : n < 2 ^ 31) :
    ∃ r₀, Holds r₀ pre ∧
      r.pass H mem s total ptr size = Receiver.copy H mem r₀ s total ptr (split n size) := by
  cases h with
  | new hr hsize hm =>
    refine ⟨{ r with response := some [] }, ⟨rfl, hr.responseSize, hr.received⟩, ?_⟩
    simp only [Receiver.pass, hr.response, hsize, hm, if_true]
  | rest hr hrem =>
    refine ⟨r, hr, ?_⟩
    simp only [Receiver.pass, hr.response, hrem, toSize_of_lt hn]

variable (total) in
lemma pass_inside (h : Pending H mem ptr r pre n) (hn : pre.length + n < 2 ^ 31) (hlt : size < n) :
    ∃ r', r.pass H mem s total ptr size = .done r' s total ∧
      Holds r' (pre ++ bytesAt mem ptr size) ∧ r'.remainingSize = (n - size : ℕ) := by
  obtain ⟨r₀, hr, hpass⟩ := h.pass (by omega)
  have hrem : toInt (n - size : ℕ) = (n - size : ℕ) := toInt_of_lt (by omega)
  have hne : ((n - size : ℕ) : ℤ) ≠ 0 := by omega
  have hsum : toInt (pre.length + size) = pre.length + size := by
    exact_mod_cast toInt_of_lt (show pre.length + size < 2 ^ 31 by omega)
  rw [hpass]
  simp only [split, if_neg (show ¬ n < size by omega), Receiver.copy, hrem, if_neg hne, hr.response,
    hr.responseSize, hr.received, hsum]
  exact ⟨_, rfl, ⟨rfl, by simp, by simp⟩, rfl⟩

variable (total) in
lemma pass_whole (h : Pending H mem ptr r pre n) (hn : pre.length + n < 2 ^ 31) :
    ∃ r', r.pass H mem s total ptr n = .done r'
        (H.processResponse (pre ++ bytesAt mem ptr n) (pre.length + n : ℕ) s).2 total ∧
      Between r' := by
  obtain ⟨r₀, hr, hpass⟩ := h.pass (by omega)
  have hrem : toInt (n - n : ℕ) = 0 := by
    rw [Nat.sub_self]
    rfl
  have hsum : toInt (pre.length + n) = (pre.length + n : ℕ) := by
    exact_mod_cast toInt_of_lt hn
  rw [hpass]
  simp only [split, lt_irrefl, if_false, Receiver.copy, hrem, if_true, hr.response, hr.responseSize,
    hr.received, hsum, Option.map_some, Option.getD_some]
  exact ⟨_, rfl, ⟨rfl, rfl, rfl⟩⟩

variable (total) in
lemma pass_beyond (h : Pending H mem ptr r pre n) (hn : pre.length + n < 2 ^ 31) (hlt : n < size) :
    ∃ r', r.pass H mem s total ptr size = .again r'
        (H.processResponse (pre ++ bytesAt mem ptr n) (pre.length + n : ℕ) s).2 (ptr + n) (size - n) ∧
      Between r' := by
  obtain ⟨r₀, hr, hpass⟩ := h.pass (by omega)
  have hsum : toInt (pre.length + n) = (pre.length + n : ℕ) := by
    exact_mod_cast toInt_of_lt hn
  have hpos : 0 < size - n := by omega
  rw [hpass]
  simp only [split, if_pos hlt, Receiver.copy, if_true, hr.response, hr.responseSize,
    hr.received, hsum, Option.map_some, Option.getD_some, hpos]
  exact ⟨_, rfl, ⟨rfl, rfl, rfl⟩⟩

lemma passes_again {k ptr' size' : ℕ} {r' : Receiver} {s' : σ}
    (h : r.pass H mem s total ptr size = .again r' s' ptr' size') :
    passes H mem total (k + 1) r s ptr size = passes H mem total k r' s' ptr' size' := by
  rw [passes, h]

lemma passes_done {k ret : ℕ} {r' : Receiver} {s' : σ}
    (h : r.pass H mem s total ptr size = .done r' s' ret) :
    passes H mem total (k + 1) r s ptr size = some (r', s', ret) := by
  rw [passes, h]

lemma pending_new {f : GrpcFrame} (hm : ∀ n, H.malloc n = true) (hr : Between r)
    (h : StandsAt mem ptr (f.flag :: beBytes 4 f.payload.length)) :
    Pending H mem ptr r [] f.bytes.length := by
  refine .new hr ?_ (hm _)
  rw [msgSize_header f.size_lt h, f.bytes_length]

variable (total) in
/-- Whole frames with more behind them are delivered, a pass for each. -/
lemma passes_frames (hm : ∀ n, H.malloc n = true) {fs : List GrpcFrame} {rest : ℕ}
    (hrest : 0 < rest) :
    ∀ {r : Receiver} {s : σ} {ptr : ℕ}, Between r → StandsAt mem ptr (stream fs) →
      ∃ r', Between r' ∧ ∀ k,
        passes H mem total (fs.length + k) r s ptr ((stream fs).length + rest) =
          passes H mem total k r' (deliver H s fs) (ptr + (stream fs).length) rest := by
  induction fs with
  | nil =>
    intro r s ptr hr _
    exact ⟨r, hr, fun k => by simp [deliver]⟩
  | cons f fs ih =>
    intro r s ptr hr hst
    rw [stream_cons, standsAt_append] at hst
    obtain ⟨hf, hfs⟩ := hst
    have hpend : Pending H mem ptr r [] f.bytes.length :=
      pending_new hm hr (standsAt_append.mp hf).1
    have hlt : f.bytes.length < (stream (f :: fs)).length + rest := by
      rw [stream_cons, List.length_append]
      omega
    have hbound : ([] : Bytes).length + f.bytes.length < 2 ^ 31 := by
      rw [f.bytes_length]
      simpa using f.size_lt
    obtain ⟨r₁, hpass, hr₁⟩ := pass_beyond total (s := s) hpend hbound hlt
    obtain ⟨r', hr', hpasses⟩ := ih (s := deliver H s [f]) hr₁ hfs
    refine ⟨r', hr', fun k => ?_⟩
    have hlen : (f :: fs).length + k = fs.length + k + 1 := by
      rw [List.length_cons]
      omega
    rw [hlen, passes_again hpass, List.nil_append, hf, List.length_nil, Nat.zero_add]
    have hsize : (stream (f :: fs)).length + rest - f.bytes.length = (stream fs).length + rest := by
      rw [stream_cons, List.length_append]
      omega
    have hptr : ptr + f.bytes.length + (stream fs).length = ptr + (stream (f :: fs)).length := by
      rw [stream_cons, List.length_append]
      omega
    rw [hsize, ← hptr]
    exact hpasses k

end Passes

/-! ### One chunk -/

/-- The frames `fs` are still to be delivered; `held` of the first has been received, with its header
if anything, and `todo` is to come. -/
structure Stands (r : Receiver) (fs : List GrpcFrame) (held todo : Bytes) : Prop where
  bytes : stream fs = held ++ todo
  receiver : (held = [] ∧ Between r) ∨
    ∃ f fs', fs = f :: fs' ∧ 5 ≤ held.length ∧ held.length < f.bytes.length ∧ Holds r held ∧
      r.remainingSize = (f.bytes.length - held.length : ℕ)

section Chunk

variable {σ : Type*} {H : Handlers σ} {mem : ℕ → UInt8} {r : Receiver} {s : σ}
  {fs : List GrpcFrame} {held rest : Bytes}

/-- The passes up to the last frame that the chunk `c` reaches into: what the receiver then holds of
the piece of that frame is `pre`, from before, and the chunk has the rest of the piece. -/
lemma passes_reach (hm : ∀ n, H.malloc n = true) {c : Bytes} (h : Stands r fs held (c ++ rest))
    (hc : StandsAt mem 0 c) {f₁ f₂ : List GrpcFrame} {f : GrpcFrame} {piece : Bytes} (hfs : fs = f₁ ++ f :: f₂) (hcut : held ++ c = stream f₁ ++ piece)
    (hp : piece ≠ []) (total : ℕ) :
    ∃ r' pre new ptr', piece = pre ++ new ∧ f₁.length ≤ c.length ∧
      StandsAt mem ptr' new ∧ ptr' + new.length = c.length ∧
      ((pre = [] ∧ Between r') ∨
        (5 ≤ pre.length ∧ Holds r' pre ∧
          r'.remainingSize = (f.bytes.length - pre.length : ℕ))) ∧
      ∀ k, passes H mem total (f₁.length + k) r s 0 c.length =
        passes H mem total k r' (deliver H s f₁) ptr' new.length := by
  have hpos : 0 < piece.length := List.length_pos_iff.mpr hp
  rcases h.receiver with ⟨rfl, hr⟩ | ⟨g, gs, hg, h5, hlt, hr, hrem⟩
  · -- no frame is begun: the chunk holds the frames `f₁` and then `piece`
    rw [List.nil_append] at hcut
    obtain ⟨hst₁, hst₂⟩ := standsAt_append.mp (hcut ▸ hc)
    obtain ⟨r', hr', hpasses⟩ := passes_frames total (s := s) hm hpos hr hst₁
    have hlen := length_le_stream f₁
    have hclen : c.length = (stream f₁).length + piece.length := by rw [hcut, List.length_append]
    refine ⟨r', [], piece, 0 + (stream f₁).length, rfl, by omega, hst₂, by omega, .inl ⟨rfl, hr'⟩,
      fun k => ?_⟩
    rw [hclen]
    exact hpasses k
  · cases f₁ with
    | nil =>
      -- the chunk stays in the frame that is begun
      rw [List.nil_append] at hfs
      obtain ⟨rfl, rfl⟩ := List.cons.inj (hg.symm.trans hfs)
      rw [stream_nil, List.nil_append] at hcut
      exact ⟨r, held, c, 0, hcut.symm, by simp, hc, by simp, .inr ⟨h5, hr, hrem⟩,
        fun k => by simp [deliver]⟩
    | cons g' f₁ =>
      -- it completes that frame and goes on
      obtain ⟨rfl, -⟩ := List.cons.inj (hg.symm.trans hfs)
      obtain ⟨suf, hsuf⟩ : held <+: g.bytes :=
        List.prefix_of_prefix_length_le ⟨c, rfl⟩
          (by rw [hcut, stream_cons, List.append_assoc]; exact List.prefix_append ..) hlt.le
      have hc' : c = suf ++ (stream f₁ ++ piece) := by
        rw [stream_cons, ← hsuf, List.append_assoc, List.append_assoc] at hcut
        exact List.append_cancel_left hcut
      have hglen : g.bytes.length = held.length + suf.length := by
        rw [← hsuf, List.length_append]
      have hrem' : r.remainingSize = suf.length := by
        rw [hrem]
        omega
      have hbound : held.length + suf.length < 2 ^ 31 := by
        rw [← hglen, g.bytes_length]
        exact g.size_lt
      have hclen : c.length = suf.length + ((stream f₁).length + piece.length) := by
        rw [hc', List.length_append, List.length_append]
      obtain ⟨hst₀, hst⟩ := standsAt_append.mp (hc' ▸ hc)
      obtain ⟨hst₁, hst₂⟩ := standsAt_append.mp hst
      have hpend : Pending H mem 0 r held suf.length := .rest hr hrem'
      obtain ⟨r₁, hpass, hr₁⟩ :=
        pass_beyond total (s := s) hpend hbound (show suf.length < c.length by omega)
      obtain ⟨r', hr', hpasses⟩ :=
        passes_frames total (s := deliver H s [g]) hm hpos hr₁ hst₁
      have hlen := length_le_stream f₁
      refine ⟨r', [], piece, 0 + suf.length + (stream f₁).length, rfl, ?_, hst₂, by omega,
        .inl ⟨rfl, hr'⟩, fun k => ?_⟩
      · rw [List.length_cons]
        omega
      · have hk : (g :: f₁).length + k = f₁.length + k + 1 := by
          rw [List.length_cons]
          omega
        have hsize : c.length - suf.length = (stream f₁).length + piece.length := by omega
        rw [hk, passes_again hpass, hst₀, hsuf, ← hglen, hsize]
        exact hpasses k

/-- The chunk ends inside a header exactly when its last piece is shorter than one. -/
lemma inHeader_reach {f₁ f₂ : List GrpcFrame} {f : GrpcFrame} {c piece rest₁ : Bytes}
    (hcut : held ++ c = stream f₁ ++ piece) (hp : piece ≠ []) (hf : f.bytes = piece ++ rest₁) :
    InHeader (f₁ ++ f :: f₂) (held.length + c.length) ↔ piece.length < 5 := by
  have hlen : held.length + c.length = (stream f₁).length + piece.length := by
    rw [← List.length_append, hcut, List.length_append]
  rw [hlen, inHeader_append]
  exact inHeader_piece hf hp

/-- **One chunk that does not end inside a header**: the frames it completes are delivered. -/
theorem callback_stands (hm : ∀ n, H.malloc n = true) {c : Chunk}
    (h : Stands r fs held (c.bytes ++ rest)) (hne : c.bytes ≠ [])
    (hcut : ¬ InHeader fs (held.length + c.bytes.length)) :
    ∃ r' fs₁ fs₂ held', fs = fs₁ ++ fs₂ ∧
      serverResponseCallback H c r s = some (r', deliver H s fs₁, c.bytes.length) ∧
      Stands r' fs₂ held' rest ∧
      held.length + c.bytes.length = (stream fs₁).length + held'.length := by
  have hbytes := h.bytes
  rw [← List.append_assoc] at hbytes
  obtain ⟨f₁, f, f₂, piece, rest₁, rfl, hsplit, hp, hf, rfl⟩ := stream_cut hbytes (by simp [hne])
  obtain ⟨r₁, pre, new, ptr, rfl, hlen, hst, hptr, hpre, hpasses⟩ :=
    passes_reach (s := s) hm h c.standsAt rfl hsplit hp c.bytes.length
  rw [inHeader_reach hsplit hp hf] at hcut
  have hflen : f.bytes.length = pre.length + new.length + rest₁.length := by
    rw [hf, List.length_append, List.length_append]
  have hpend : Pending H c.mem ptr r₁ pre (f.bytes.length - pre.length) := by
    rcases hpre with ⟨rfl, hr₁⟩ | ⟨-, hr₁, hrem⟩
    · -- the whole header is in the chunk
      rw [List.nil_append] at hcut hf
      obtain ⟨new', hnew'⟩ : f.flag :: beBytes 4 f.payload.length <+: new :=
        List.prefix_of_prefix_length_le ⟨f.payload, rfl⟩ ⟨rest₁, hf.symm⟩ (by simp; omega)
      rw [← hnew'] at hst
      exact pending_new hm hr₁ (standsAt_append.mp hst).1
    · exact .rest hr₁ hrem
  have hbound : pre.length + (f.bytes.length - pre.length) < 2 ^ 31 := by
    have := f.size_lt
    rw [f.bytes_length] at hflen ⊢
    omega
  obtain ⟨k, hk⟩ : ∃ k, c.bytes.length + 2 = f₁.length + (k + 1) :=
    ⟨c.bytes.length + 1 - f₁.length, by omega⟩
  have hcount : held.length + c.bytes.length = (stream f₁).length + (pre ++ new).length := by
    rw [← List.length_append, hsplit, List.length_append]
  rw [serverResponseCallback, hk, hpasses]
  by_cases hwhole : rest₁ = []
  · -- the last frame is complete
    subst hwhole
    have hn : f.bytes.length - pre.length = new.length := by
      rw [List.length_nil] at hflen
      omega
    rw [hn] at hpend hbound
    obtain ⟨r', hpass, hr'⟩ := pass_whole c.bytes.length (s := deliver H s f₁) hpend hbound
    rw [List.append_nil] at hf
    refine ⟨r', f₁ ++ [f], f₂, [], by simp, ?_, ⟨by simp, .inl ⟨rfl, hr'⟩⟩, ?_⟩
    · have hsize : pre.length + new.length = f.bytes.length := by
        rw [hf, List.length_append]
      rw [passes_done hpass, hst, ← hf, hsize]
      simp [deliver]
    · rw [hcount, ← hf, stream_append, List.length_append]
      simp
  · -- it is begun
    have hpos : 0 < rest₁.length := List.length_pos_iff.mpr hwhole
    obtain ⟨r', hpass, hr', hrem⟩ :=
      pass_inside c.bytes.length (s := deliver H s f₁) hpend hbound
        (show new.length < f.bytes.length - pre.length by omega)
    rw [hst] at hr'
    refine ⟨r', f₁, f :: f₂, pre ++ new, rfl, passes_done hpass, ⟨?_, .inr ⟨f, f₂, rfl, by omega, ?_,
      hr', ?_⟩⟩, hcount⟩
    · rw [stream_cons, hf, List.append_assoc]
    · rw [List.length_append]
      omega
    · rw [hrem, List.length_append]
      omega

end Chunk

/-! ### All chunks -/

section Feed

variable {σ : Type*} {H : Handlers σ}

lemma Stands.finished {r : Receiver} {fs : List GrpcFrame} {held : Bytes} (h : Stands r fs held []) :
    fs = [] ∧ Between r := by
  rcases h.receiver with ⟨rfl, hr⟩ | ⟨f, fs', rfl, -, hlt, -, -⟩
  · refine ⟨?_, hr⟩
    cases fs with
    | nil => rfl
    | cons f fs =>
      have hlen := congrArg List.length h.bytes
      simp at hlen
  · have hlen := congrArg List.length h.bytes
    rw [stream_cons, List.length_append, List.append_nil] at hlen
    omega

/-- No cut of the chunks falls inside a header, counted from a position of the frames. -/
def CutsOutside (fs : List GrpcFrame) (p : ℕ) (chunks : List Bytes) : Prop :=
  ∀ c₁ c₂, chunks = c₁ ++ c₂ → ¬ InHeader fs (p + c₁.flatten.length)

lemma CutsOutside.cons {fs₁ fs₂ : List GrpcFrame} {p q : ℕ} {c : Bytes} {chunks : List Bytes}
    (h : CutsOutside (fs₁ ++ fs₂) p (c :: chunks)) (hq : p + c.length = (stream fs₁).length + q) :
    CutsOutside fs₂ q chunks := by
  rintro c₁ c₂ rfl hin
  have hpos : p + (c :: c₁).flatten.length = (stream fs₁).length + (q + c₁.flatten.length) := by
    rw [List.flatten_cons, List.length_append]
    omega
  refine h (c :: c₁) c₂ rfl ?_
  rw [hpos, inHeader_append]
  exact hin

lemma feed_stands (hm : ∀ n, H.malloc n = true) {cs : List Chunk} :
    ∀ {r : Receiver} {s : σ} {fs : List GrpcFrame} {held : Bytes},
      Stands r fs held (cs.map Chunk.bytes).flatten → (∀ c ∈ cs, c.bytes ≠ []) →
      CutsOutside fs held.length (cs.map Chunk.bytes) →
      ∃ r', feed H cs r s = some (r', deliver H s fs) ∧ Between r' := by
  induction cs with
  | nil =>
    intro r s fs held h _ _
    obtain ⟨rfl, hr⟩ := Stands.finished h
    exact ⟨r, rfl, hr⟩
  | cons c cs ih =>
    intro r s fs held h hne hout
    rw [List.map_cons, List.flatten_cons] at h
    have hfirst : ¬ InHeader fs (held.length + c.bytes.length) := by
      simpa using hout [c.bytes] _ rfl
    obtain ⟨r₁, fs₁, fs₂, held₁, rfl, hcall, hst, hcount⟩ :=
      callback_stands hm (s := s) h (hne c (List.mem_cons_self ..)) hfirst
    obtain ⟨r', hfeed, hr'⟩ := ih (s := deliver H s fs₁) hst
      (fun c' hc' => hne c' (List.mem_cons_of_mem _ hc')) (hout.cons hcount)
    refine ⟨r', ?_, hr'⟩
    rw [feed, hcall, Option.bind_some, hfeed]
    simp [deliver]

/-- **The frames are delivered**, once, in order and whole, however the stream is cut outside its
headers, whatever the handler does. -/
theorem feed_deliver (hm : ∀ n, H.malloc n = true) {r : Receiver} (hr : Between r)
    {frames : List GrpcFrame} {cs : List Chunk} (hne : ∀ c ∈ cs, c.bytes ≠ [])
    (hbytes : (cs.map Chunk.bytes).flatten = stream frames)
    (hcut : ¬ CutInHeader frames (cs.map Chunk.bytes)) (s : σ) :
    ∃ r', feed H cs r s = some (r', deliver H s frames) ∧ Between r' := by
  have hst : Stands r frames [] (cs.map Chunk.bytes).flatten :=
    ⟨by rw [hbytes, List.nil_append], .inl ⟨rfl, hr⟩⟩
  refine feed_stands hm hst hne fun c₁ c₂ hc hin => hcut ⟨c₁, c₂, hc, ?_⟩
  simpa using hin

end Feed

/-! ### A cut inside a header -/

/-- The handlers that write down what `process_response` is called with; `ok` are its results. -/
def recorder (malloc : ℕ → Bool) (ok : List (Bytes × ℤ) → Bool) : Handlers (List (Bytes × ℤ)) where
  malloc := malloc
  processResponse := fun response received log =>
    (ok (log ++ [(response, received)]), log ++ [(response, received)])
  processRequestError := fun _ log => log

/-- What is to be written down of a frame. -/
def GrpcFrame.entry (f : GrpcFrame) : Bytes × ℤ := (f.bytes, f.bytes.length)

section Recorder

variable {malloc : ℕ → Bool} {ok : List (Bytes × ℤ) → Bool} {r : Receiver}
  {log : List (Bytes × ℤ)} {pre : Bytes} {n : ℕ}

lemma deliver_recorder (fs : List GrpcFrame) :
    deliver (recorder malloc ok) log fs = log ++ fs.map GrpcFrame.entry := by
  induction fs generalizing log with
  | nil => simp [deliver]
  | cons f fs ih =>
    show deliver (recorder malloc ok) (log ++ [f.entry]) fs = _
    rw [ih, List.append_assoc]
    rfl

lemma copy_log {mem : ℕ → UInt8} {total ptr : ℕ} {what : ℕ × ℤ × ℕ} :
    (∀ {r' log' ptr' size'},
      Receiver.copy (recorder malloc ok) mem r log total ptr what = .again r' log' ptr' size' →
        log <+: log') ∧
    ∀ {r' log' ret},
      Receiver.copy (recorder malloc ok) mem r log total ptr what = .done r' log' ret →
        log <+: log' := by
  unfold Receiver.copy
  by_cases h0 : what.2.1 = 0
  · by_cases h1 : 0 < what.2.2
    · simp only [h0, h1, if_true]
      refine ⟨fun h => ?_, by rintro _ _ _ ⟨⟩⟩
      obtain ⟨-, rfl, -, -⟩ := Pass.again.inj h
      exact List.prefix_append ..
    · simp only [h0, h1, if_true, if_false]
      refine ⟨by rintro _ _ _ _ ⟨⟩, fun h => ?_⟩
      obtain ⟨-, rfl, -⟩ := Pass.done.inj h
      exact List.prefix_append ..
  · simp only [h0, if_false]
    refine ⟨by rintro _ _ _ _ ⟨⟩, fun h => ?_⟩
    obtain ⟨-, rfl, -⟩ := Pass.done.inj h
    exact List.prefix_refl _

lemma pass_log {mem : ℕ → UInt8} {total ptr size : ℕ} :
    (∀ {r' log' ptr' size'},
      r.pass (recorder malloc ok) mem log total ptr size = .again r' log' ptr' size' →
        log <+: log') ∧
    ∀ {r' log' ret},
      r.pass (recorder malloc ok) mem log total ptr size = .done r' log' ret → log <+: log' := by
  unfold Receiver.pass
  split
  · simp only
    split
    · exact copy_log
    · refine ⟨by rintro _ _ _ _ ⟨⟩, fun h => ?_⟩
      obtain ⟨-, rfl, -⟩ := Pass.done.inj h
      exact List.prefix_refl _
  · exact copy_log

lemma passes_log {mem : ℕ → UInt8} {total k : ℕ} :
    ∀ {r : Receiver} {log : List (Bytes × ℤ)} {ptr size : ℕ} {p},
      passes (recorder malloc ok) mem total k r log ptr size = some p → log <+: p.2.1 := by
  induction k with
  | zero => intro r log ptr size p h; cases h
  | succ k ih =>
    intro r log ptr size p h
    rw [passes] at h
    split at h
    case h_1 hpass => exact (pass_log.1 hpass).trans (ih h)
    case h_2 hpass =>
      obtain rfl := Option.some.inj h
      exact pass_log.2 hpass

lemma feed_log {cs : List Chunk} :
    ∀ {r : Receiver} {log : List (Bytes × ℤ)} {p},
      feed (recorder malloc ok) cs r log = some p → log <+: p.2 := by
  induction cs with
  | nil =>
    intro r log p h
    obtain rfl := Option.some.inj h
    exact List.prefix_refl _
  | cons c cs ih =>
    intro r log p h
    obtain ⟨q, hcall, h⟩ := Option.bind_eq_some_iff.mp h
    exact (passes_log hcall).trans (ih h)

/-- A message of which `pre` is here and `n` bytes are missing is completed by the chunk or goes on. -/
lemma callback_holds (hr : Holds r pre) (hrem : r.remainingSize = n)
    (hbound : pre.length + n < 2 ^ 31) {c : Chunk} {p}
    (h : serverResponseCallback (recorder malloc ok) c r log = some p) :
    (∃ pre' n', Holds p.1 pre' ∧ p.1.remainingSize = (n' : ℕ) ∧
      pre'.length + n' = pre.length + n ∧ p.2.1 = log) ∨
    ∃ x, log ++ [(x, ((pre.length + n : ℕ) : ℤ))] <+: p.2.1 := by
  have hpend : Pending (recorder malloc ok) c.mem 0 r pre n := .rest hr hrem
  rw [serverResponseCallback] at h
  rcases Nat.lt_trichotomy c.bytes.length n with hlt | heq | hgt
  · obtain ⟨r', hpass, hr', hrem'⟩ :=
      pass_inside c.bytes.length (s := log) hpend hbound hlt
    rw [passes_done hpass] at h
    obtain rfl := Option.some.inj h
    refine .inl ⟨_, _, hr', hrem', ?_, rfl⟩
    rw [List.length_append, bytesAt_length]
    omega
  · subst heq
    obtain ⟨r', hpass, -⟩ := pass_whole c.bytes.length (s := log) hpend hbound
    rw [passes_done hpass] at h
    obtain rfl := Option.some.inj h
    exact .inr ⟨_, List.prefix_refl _⟩
  · obtain ⟨r', hpass, -⟩ := pass_beyond c.bytes.length (s := log) hpend hbound hgt
    rw [passes_again hpass] at h
    exact .inr ⟨_, passes_log h⟩

/-- Such a message is never completed, or comes out with the size it was begun with. -/
lemma feed_holds {cs : List Chunk} :
    ∀ {r : Receiver} {pre : Bytes} {n : ℕ}, Holds r pre → r.remainingSize = n →
      pre.length + n < 2 ^ 31 →
      ∀ {p}, feed (recorder malloc ok) cs r log = some p →
        p.1.response ≠ none ∨ ∃ x, log ++ [(x, ((pre.length + n : ℕ) : ℤ))] <+: p.2 := by
  induction cs with
  | nil =>
    intro r pre n hr _ _ p h
    obtain rfl := Option.some.inj h
    exact .inl (by simp [hr.response])
  | cons c cs ih =>
    intro r pre n hr hrem hbound p h
    obtain ⟨q, hcall, h⟩ := Option.bind_eq_some_iff.mp h
    rcases callback_holds hr hrem hbound hcall with
      ⟨pre', n', hr', hrem', hsum, hlog⟩ | ⟨x, hx⟩
    · rw [hlog] at h
      have hih := ih hr' hrem' (by omega) h
      rwa [hsum] at hih
    · exact .inr ⟨x, hx.trans (feed_log h)⟩

/-- A length that differs from that of the frame in its last byte only. -/
def GrpcFrame.spoiled (f : GrpcFrame) : ℕ :=
  if f.payload.length % 256 = 0 then f.payload.length + 1 else f.payload.length - 1

lemma GrpcFrame.spoiled_ne (f : GrpcFrame) : f.spoiled ≠ f.payload.length := by
  unfold GrpcFrame.spoiled
  split <;> omega

lemma GrpcFrame.spoiled_lt (f : GrpcFrame) : f.spoiled + 5 < 2 ^ 31 := by
  have := f.size_lt
  unfold GrpcFrame.spoiled
  split <;> omega

lemma beBytes_four (n : ℕ) : beBytes 4 n = beBytes 3 (n / 256) ++ [UInt8.ofNat n] := by
  simp [beBytes, leBytes]

lemma GrpcFrame.take_spoiled (f : GrpcFrame) {o : ℕ} (ho : o ≤ 4) :
    (f.flag :: beBytes 4 f.spoiled).take o = f.bytes.take o := by
  have hdiv : f.spoiled / 256 = f.payload.length / 256 := by
    unfold GrpcFrame.spoiled
    split <;> omega
  have hfour : ∀ n, (f.flag :: beBytes 4 n).take 4 = f.flag :: beBytes 3 (n / 256) := by
    intro n
    rw [beBytes_four, ← List.cons_append]
    exact List.take_left' (by simp)
  have hframe : f.bytes.take 4 = (f.flag :: beBytes 4 f.payload.length).take 4 := by
    rw [GrpcFrame.bytes, List.take_append_of_le_length (by simp)]
  have hsame : (f.flag :: beBytes 4 f.spoiled).take 4 = f.bytes.take 4 := by
    rw [hframe, hfour, hfour, hdiv]
  calc (f.flag :: beBytes 4 f.spoiled).take o
      = ((f.flag :: beBytes 4 f.spoiled).take 4).take o := by
        rw [List.take_take, Nat.min_eq_left ho]
    _ = (f.bytes.take 4).take o := by rw [hsame]
    _ = f.bytes.take o := by rw [List.take_take, Nat.min_eq_left ho]

/-- The chunk with the rest of the spoiled header behind it. -/
def spoil (f : GrpcFrame) (bytes : Bytes) (o : ℕ) : Chunk where
  bytes := bytes
  after := fun i => (f.flag :: beBytes 4 f.spoiled).getD (o + i) 0

lemma spoil_standsAt {f : GrpcFrame} {bytes piece rest₁ : Bytes} {ptr : ℕ}
    (hf : f.bytes = piece ++ rest₁) (hlt : piece.length < 5)
    (hst : StandsAt (spoil f bytes piece.length).mem ptr piece)
    (hptr : ptr + piece.length = bytes.length) :
    StandsAt (spoil f bytes piece.length).mem ptr (f.flag :: beBytes 4 f.spoiled) := by
  have hpiece : piece = (f.flag :: beBytes 4 f.spoiled).take piece.length := by
    rw [f.take_spoiled (by omega), hf, List.take_left]
  have hsplit : f.flag :: beBytes 4 f.spoiled =
      piece ++ (f.flag :: beBytes 4 f.spoiled).drop piece.length := by
    nth_rewrite 1 [← List.take_append_drop piece.length (f.flag :: beBytes 4 f.spoiled)]
    rw [← hpiece]
  rw [hsplit, standsAt_append]
  refine ⟨hst, List.ext_getElem (by simp) fun i hi hi' => ?_⟩
  have hmem : ∀ j, (spoil f bytes piece.length).mem (bytes.length + j) =
      (f.flag :: beBytes 4 f.spoiled).getD (piece.length + j) 0 := by
    intro j
    rw [Chunk.mem, if_neg (by simp [spoil])]
    simp [spoil]
  simp only [bytesAt, List.getElem_map, List.getElem_range, hptr, hmem]
  rw [List.getElem_drop, List.getD_eq_getElem?_getD, List.getElem?_eq_getElem, Option.getD_some]

/-- **A chunk that ends inside a header**, with the wrong bytes behind it: the callback begins a message
of a size that is not that of the frame. -/
lemma callback_spoiled (hm : ∀ n, malloc n = true) (ok : List (Bytes × ℤ) → Bool)
    (log : List (Bytes × ℤ)) {fs : List GrpcFrame} {held c rest : Bytes} (h : Stands r fs held (c ++ rest)) (hne : c ≠ [])
    (hcut : InHeader fs (held.length + c.length)) :
    ∃ after f₁ f f₂ r' pre n, fs = f₁ ++ f :: f₂ ∧
      serverResponseCallback (recorder malloc ok) ⟨c, after⟩ r log =
        some (r', log ++ f₁.map GrpcFrame.entry, c.length) ∧
      Holds r' pre ∧ r'.remainingSize = (n : ℕ) ∧ pre.length + n < 2 ^ 31 ∧
      pre.length + n ≠ f.bytes.length := by
  have hbytes := h.bytes
  rw [← List.append_assoc] at hbytes
  obtain ⟨f₁, f, f₂, piece, rest₁, rfl, hsplit, hp, hf, rfl⟩ := stream_cut hbytes (by simp [hne])
  have hshort := (inHeader_reach hsplit hp hf).mp hcut
  have hm' : ∀ n, (recorder malloc ok).malloc n = true := hm
  obtain ⟨r₁, pre, new, ptr, rfl, hlen, hst, hptr, hpre, hpasses⟩ :=
    passes_reach (s := log) hm' h (spoil f c piece.length).standsAt rfl hsplit hp c.length
  -- so little of a frame is never held from before
  obtain ⟨rfl, hr₁⟩ : pre = [] ∧ Between r₁ := by
    rcases hpre with hnone | ⟨h5, -, -⟩
    · exact hnone
    · rw [List.length_append] at hshort
      omega
  simp only [List.nil_append] at hst hf hshort hpasses
  have hst' := spoil_standsAt hf hshort hst hptr
  have hpend : Pending (recorder malloc ok) (spoil f c new.length).mem ptr r₁ [] (f.spoiled + 5) :=
    .new hr₁ (msgSize_header f.spoiled_lt hst') (hm _)
  have hbound : ([] : Bytes).length + (f.spoiled + 5) < 2 ^ 31 := by
    simpa using f.spoiled_lt
  obtain ⟨r', hpass, hr', hrem⟩ :=
    pass_inside c.length (s := log ++ f₁.map GrpcFrame.entry) hpend hbound
      (show new.length < f.spoiled + 5 by omega)
  rw [hst] at hr'
  obtain ⟨k, hk⟩ : ∃ k, c.length + 2 = f₁.length + (k + 1) := ⟨c.length + 1 - f₁.length, by omega⟩
  have hne' := f.spoiled_ne
  have hlt := f.spoiled_lt
  refine ⟨(spoil f c new.length).after, f₁, f, f₂, r', new, f.spoiled + 5 - new.length, rfl, ?_, hr',
    hrem, by omega, ?_⟩
  · show passes _ (spoil f c new.length).mem c.length (c.length + 2) r log 0 c.length = _
    rw [hk]
    refine (hpasses (k + 1)).trans ?_
    rw [deliver_recorder, passes_done hpass]
  · rw [f.bytes_length]
    omega

/-- Some memory behind the chunks spoils the delivery when a cut is inside a header. -/
lemma feed_spoiled (hm : ∀ n, malloc n = true) (ok : List (Bytes × ℤ) → Bool) {chunks : List Bytes} :
    ∀ {r : Receiver} (log : List (Bytes × ℤ)) {fs : List GrpcFrame} {held : Bytes},
      Stands r fs held chunks.flatten → (∀ c ∈ chunks, c ≠ []) →
      ¬ CutsOutside fs held.length chunks →
      ∃ cs : List Chunk, cs.map Chunk.bytes = chunks ∧
        ∀ r', ¬ (feed (recorder malloc ok) cs r log =
          some (r', log ++ fs.map GrpcFrame.entry) ∧ Between r') := by
  induction chunks with
  | nil =>
    intro r log fs held h _ hcut
    obtain ⟨rfl, -⟩ := Stands.finished h
    exact absurd (fun _ _ _ hin => hin) hcut
  | cons c chunks ih =>
    intro r log fs held h hne hcut
    rw [List.flatten_cons] at h
    have hc := hne c (List.mem_cons_self ..)
    have hrest : ∀ c' ∈ chunks, c' ≠ [] := fun c' hc' => hne c' (List.mem_cons_of_mem _ hc')
    by_cases hfirst : InHeader fs (held.length + c.length)
    · -- the first cut inside a header: the wrong bytes behind this chunk
      obtain ⟨after, f₁, f, f₂, r₁, pre, n, rfl, hcall, hr₁, hrem, hbound, hwrong⟩ :=
        callback_spoiled hm ok log h hc hfirst
      refine ⟨⟨c, after⟩ :: chunks.map (⟨·, fun _ => 0⟩), by simp [Function.comp_def], ?_⟩
      rintro r' ⟨hfeed, hr'⟩
      rw [feed, hcall, Option.bind_some] at hfeed
      rcases feed_holds hr₁ hrem hbound hfeed with hresp | ⟨x, hx⟩
      · exact hresp hr'.response
      · -- the frame would have had to come with its own size
        rw [List.map_append, List.map_cons, ← List.append_assoc] at hx
        have hentry := (List.prefix_append_right_inj _).mp hx
        obtain ⟨hhead, -⟩ := List.cons_prefix_cons.mp hentry
        have hsize : ((pre.length + n : ℕ) : ℤ) = (f.bytes.length : ℕ) := congrArg Prod.snd hhead
        exact hwrong (by exact_mod_cast hsize)
    · -- this chunk is delivered whatever lies behind it
      obtain ⟨r₁, fs₁, fs₂, held₁, rfl, hcall, hst, hcount⟩ :=
        callback_stands (H := recorder malloc ok) hm (s := log) (c := ⟨c, fun _ => 0⟩) h hc hfirst
      rw [deliver_recorder] at hcall
      have hcut' : ¬ CutsOutside fs₂ held₁.length chunks := by
        refine fun hout => hcut fun c₁ c₂ hsplit hin => ?_
        cases c₁ with
        | nil =>
          rcases h.receiver with ⟨rfl, -⟩ | ⟨f, fs', hfs, h5, hlt, -, -⟩
          · exact not_inHeader_zero _ hin
          · rw [hfs, InHeader, if_pos (by simpa using hlt)] at hin
            simp at hin
            omega
        | cons c' c₁ =>
          obtain ⟨rfl, rfl⟩ := List.cons.inj hsplit
          have hpos : held.length + (c :: c₁).flatten.length =
              (stream fs₁).length + (held₁.length + c₁.flatten.length) := by
            have hcount' : held.length + c.length = (stream fs₁).length + held₁.length := hcount
            rw [List.flatten_cons, List.length_append]
            omega
          rw [hpos, inHeader_append] at hin
          exact hout c₁ c₂ rfl hin
      obtain ⟨cs, rfl, hcs⟩ := ih (log ++ fs₁.map GrpcFrame.entry) hst hrest hcut'
      refine ⟨⟨c, fun _ => 0⟩ :: cs, rfl, fun r' hfeed => hcs r' ?_⟩
      rw [feed, hcall, Option.bind_some, List.map_append, ← List.append_assoc] at hfeed
      exact hfeed

/-- **The delivery does not depend on the memory behind the chunks exactly when no cut is inside a
header.**  `process_response` then sees every frame once, in order and whole, with its size in
`received`, and nothing is left. -/
theorem chunking_iff (hm : ∀ n, malloc n = true) (hr : Between r) {frames : List GrpcFrame}
    {chunks : List Bytes} (hne : ∀ c ∈ chunks, c ≠ []) (hbytes : chunks.flatten = stream frames) :
    (∀ cs : List Chunk, cs.map Chunk.bytes = chunks →
      ∃ r', feed (recorder malloc ok) cs r [] =
          some (r', frames.map fun f => (f.bytes, (f.bytes.length : ℤ))) ∧
        r'.response = none ∧ r'.responseSize = 0 ∧ r'.received = 0) ↔
      ¬ CutInHeader frames chunks := by
  constructor
  · intro h hcut
    have hst : Stands r frames [] chunks.flatten :=
      ⟨by rw [hbytes, List.nil_append], .inl ⟨rfl, hr⟩⟩
    have hcuts : ¬ CutsOutside frames ([] : Bytes).length chunks := by
      obtain ⟨c₁, c₂, hsplit, hin⟩ := hcut
      exact fun hout => hout c₁ c₂ hsplit (by simpa using hin)
    obtain ⟨cs, hcs, hbad⟩ := feed_spoiled hm ok [] hst hne hcuts
    obtain ⟨r', hfeed, hresp, hsize, hrec⟩ := h cs hcs
    exact hbad r' ⟨hfeed, hresp, hsize, hrec⟩
  · rintro hcut cs rfl
    have hne' : ∀ c ∈ cs, c.bytes ≠ [] := fun c hc => hne _ (List.mem_map_of_mem hc)
    obtain ⟨r', hfeed, hr'⟩ := feed_deliver (H := recorder malloc ok) hm hr hne' hbytes hcut []
    rw [deliver_recorder] at hfeed
    exact ⟨r', hfeed, hr'.response, hr'.responseSize, hr'.received⟩

end Recorder

def Receiver.new : Receiver := ⟨none, 0, 0, 0, false, false⟩

def sampleFrame : GrpcFrame := ⟨0, [1, 2, 3], by simp⟩

/-- Two frames in three chunks, the cuts in a payload and right behind a header. -/
theorem chunking_two_frames :
    (∀ cs : List Chunk,
      cs.map Chunk.bytes = [[0, 0, 0, 0, 3, 1], [2, 3, 0, 0, 0, 0, 3], [1, 2, 3]] →
      ∃ r', feed (recorder (fun _ => true) fun _ => true) cs Receiver.new [] =
          some (r', [sampleFrame, sampleFrame].map fun f => (f.bytes, (f.bytes.length : ℤ))) ∧
        r'.response = none ∧ r'.responseSize = 0 ∧ r'.received = 0) ↔
      ¬ CutInHeader [sampleFrame, sampleFrame]
        [[0, 0, 0, 0, 3, 1], [2, 3, 0, 0, 0, 0, 3], [1, 2, 3]] :=
  chunking_iff (fun _ => rfl) ⟨rfl, rfl, rfl⟩ (by decide) (by decide)

/-- **A frame cut behind its second byte is not delivered** when the memory behind the first chunk holds
ones: the callback waits for 65798 bytes. -/
theorem frame_cut_in_header :
    ([[0, 0], [0, 0, 3, 1, 2, 3]] : List Bytes).flatten = stream [sampleFrame] ∧
    ∃ cs : List Chunk, cs.map Chunk.bytes = [[0, 0], [0, 0, 3, 1, 2, 3]] ∧
      ∃ r', feed (recorder (fun _ => true) fun _ => true) cs Receiver.new [] = some (r', []) ∧
        r'.response ≠ none ∧ r'.remainingSize = 65790 := by
  refine ⟨by decide, [⟨[0, 0], fun _ => 1⟩, ⟨[0, 0, 3, 1, 2, 3], fun _ => 0⟩], rfl, ?_⟩
  have h : (feed (recorder (fun _ => true) fun _ => true)
      [⟨[0, 0], fun _ => 1⟩, ⟨[0, 0, 3, 1, 2, 3], fun _ => 0⟩] Receiver.new []).map
        (fun p => (p.1.response.isSome, p.1.remainingSize, p.2)) = some (true, 65790, []) := by
    decide +kernel
  obtain ⟨⟨r', log⟩, hfeed, hboth⟩ := Option.map_eq_some_iff.mp h
  obtain ⟨hresp, hboth⟩ := Prod.mk.inj hboth
  obtain ⟨hrem, rfl⟩ := Prod.mk.inj hboth
  exact ⟨r', hfeed, Option.isSome_iff_ne_none.mp hresp, hrem⟩

end Libaergo
