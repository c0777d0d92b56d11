import Libaergo.Socket.Chunking
import Libaergo.Socket.Invocations

/-!
# The callbacks of libcurl (`socket.c`)

What libcurl really hands over while it performs are header lines and chunks of bodies, for any of the requests it
has a transfer for.  A session is an instance together with what its requests have received of the messages to come.
Each of its steps is what the instance does of itself, a line for `server_header_callback`, or a chunk for
`server_response_callback`; the user callbacks that a chunk sets off may make API calls between one message and the
next.  As long as `malloc` succeeds, the bodies are frames, no chunk ends inside a header of theirs and nothing comes for
a released request, a session is a run of the instance whose messages are the frames that have come whole, whatever
the order of lines and chunks of different transfers (`session_refines`).
-/

namespace Libaergo

open Lib

/-! ### The header callback -/

/-- `grpc-message: ` -/
def grpcMessageText : Bytes := [0x67, 0x72, 0x70, 0x63, 0x2d, 0x6d, 0x65, 0x73, 0x73, 0x61, 0x67, 0x65, 0x3a, 0x20]

/-- A text up to the first line end. -/
def untilCrlf : Bytes → Bytes
  | [] => []
  | [c] => [c]
  | c :: d :: cs => if c = 0x0d ∧ d = 0x0a then [] else c :: untilCrlf (d :: cs)

/-- The error text that `server_header_callback` takes from a line, which it reads up to a null byte.  The name of the
header may stand anywhere in it; the text begins behind as many characters. -/
def headerError (buffer : Bytes) : Option Bytes :=
  let line := buffer.takeWhile (· ≠ 0)
  if grpcMessageText <:+: line ∧ untilCrlf (line.drop 14) ≠ [] then some (untilCrlf (line.drop 14)) else none

/-! ### Sessions -/

/-- An instance, and what its requests have received. -/
structure Session where
  world : World
  receivers : ReqId → Receiver

def Session.start (receipts : ℕ → TransactionReceipt) (accounts : ℕ → AccountState) : Session where
  world := .start receipts accounts
  receivers := fun _ => .new

/-- What can happen to a session; a chunk with the API calls of the user callbacks, for each message that it
completes. -/
inductive Event where
  | loop (a : Act)
  | header (r : ReqId) (line : Bytes)
  | body (r : ReqId) (chunk : Chunk) (calls : List (List Call))

/-- The act is that of a callback of libcurl. -/
def Act.isAnswer : Act → Bool
  | .error _ _ => true
  | .message _ _ => true
  | _ => false

def Act.isMessage : Act → Bool
  | .message _ _ => true
  | _ => false

/-- `&request->response[5]`, with `request->received - 5` bytes -/
def messageOf (response : Bytes) (received : ℤ) : Bytes := (response.drop 5).take (toSize (received - 5))

/-- What `server_response_callback` calls for the request, in a world and with the API calls to come; nothing is known
where a receipt is written through a null pointer. -/
def handlers (E : Env) (r : ReqId) : Handlers (Option (World × List (List Call))) where
  malloc := E.malloc
  processResponse response received
    | some (w, calls :: rest) =>
      if w.nullReceipt r then (false, none)
      else
        let w := processMessage E w r (messageOf response received)
        ((w.heap r).success, some (calls.foldl World.call w, rest))
    | _ => (false, none)
  processRequestError error s := s.map fun p => (processRequestError p.1 r error.toUTF8.toList, p.2)

/-- **One step of a session**, if the event can happen. -/
def Session.step (E : Env) (s : Session) : Event → Option Session
  | .loop a => if a.isAnswer then none else (s.world.step E a).map fun w => { s with world := w }
  | .header r line =>
    if s.world.pc = some .perform ∧ r ∈ s.world.attached then
      match headerError line with
      | none => some s
      | some text => some { s with world := processRequestError s.world r text }
    else none
  | .body r chunk calls =>
    if s.world.pc = some .perform ∧ r ∈ s.world.attached ∧ chunk.bytes ≠ [] then
      match serverResponseCallback (handlers E r) chunk (s.receivers r) (some (s.world, calls)) with
      | some (receiver, some (w, []), _) => some ⟨w, Function.update s.receivers r receiver⟩
      | _ => none
    else none

/-- No released request is written to in the event, where its line has an error text, or its chunk completes a
message. -/
def Session.Spares (s : Session) : Event → Prop
  | .loop a => s.world.SparesReleased a
  | .header r line => ∀ text ∈ headerError line, s.world.SparesReleased (.error r text)
  | .body r _ calls => calls ≠ [] → s.world.SparesReleased (.message r [])

instance Session.Spares.decidable (s : Session) (e : Event) : Decidable (s.Spares e) :=
  match e with
  | .loop a => inferInstanceAs (Decidable (s.world.SparesReleased a))
  | .header r line => inferInstanceAs (Decidable (∀ text ∈ headerError line, s.world.SparesReleased (.error r text)))
  | .body r _ calls => inferInstanceAs (Decidable (calls ≠ [] → s.world.SparesReleased (.message r [])))

/-- What the instance does in an event, the messages of the chunks left out. -/
def Event.acts : Event → List Act
  | .loop a => [a]
  | .header r line => ((headerError line).map (Act.error r)).toList
  | .body _ _ calls => calls.flatten.map Act.call

/-- The chunk of the body of the request that an event brings. -/
def Event.chunkTo (r : ReqId) : Event → Option Bytes
  | .body x chunk _ => if x = r then some chunk.bytes else none
  | _ => none

/-- The chunks that come for the request, in turn. -/
def chunksTo (r : ReqId) (es : List Event) : List Bytes := es.filterMap (Event.chunkTo r)

lemma chunksTo_append (r : ReqId) (es fs : List Event) : chunksTo r (es ++ fs) = chunksTo r es ++ chunksTo r fs :=
  List.filterMap_append ..

/-! ### Frames on their way -/

/-- The chunks go on with the frames from where the receiver stands, and no cut is inside a header. -/
structure Framed (receiver : Receiver) (frames : List GrpcFrame) (held : Bytes) (chunks : List Bytes) : Prop where
  stands : ∃ rest, Stands receiver frames held (chunks.flatten ++ rest)
  cuts : CutsOutside frames held.length chunks

/-- The messages are those of the frames that have come whole. -/
def Delivered (frames : List GrpcFrame) (bytes : Bytes) (messages : List Bytes) : Prop :=
  ∃ whole rest, frames = whole ++ rest ∧ messages = whole.map GrpcFrame.payload ∧ stream whole <+: bytes ∧
    ∀ f ∈ rest.head?, bytes.length < (stream whole).length + f.bytes.length

/-- The receiver stands between two frames, or its response buffer holds the beginning of this one. -/
def Buffers (receiver : Receiver) (f : Option GrpcFrame) (held : Bytes) : Prop :=
  held = [] ∧ Between receiver ∨
    ∃ g ∈ f, held <+: g.bytes ∧ 5 ≤ held.length ∧ held.length < g.bytes.length ∧ Holds receiver held

/-- The messages are those of the frames that have come whole, and what has come of the next frame is in the response
buffer. -/
def Collected (receiver : Receiver) (frames : List GrpcFrame) (bytes : Bytes) (messages : List Bytes) : Prop :=
  ∃ whole rest held, frames = whole ++ rest ∧ messages = whole.map GrpcFrame.payload ∧ bytes = stream whole ++ held ∧
    Buffers receiver rest.head? held

section Frames

variable {receiver : Receiver} {frames : List GrpcFrame} {held : Bytes} {chunks : List Bytes}

/-- **One chunk**: the callback returns, with the frames that are complete delivered. -/
lemma Framed.callback {σ : Type*} {H : Handlers σ} (hm : ∀ n, H.malloc n = true) {c : Chunk}
    (h : Framed receiver frames held (c.bytes :: chunks)) (hne : c.bytes ≠ []) (s : σ) :
    ∃ receiver' whole rest held', frames = whole ++ rest ∧
      serverResponseCallback H c receiver s = some (receiver', deliver H s whole, c.bytes.length) ∧
      held ++ c.bytes = stream whole ++ held' ∧ Framed receiver' rest held' chunks := by
  obtain ⟨⟨rest, hstands⟩, hcuts⟩ := h
  rw [List.flatten_cons, List.append_assoc] at hstands
  have hcut : ¬ InHeader frames (held.length + c.bytes.length) := by
    simpa using hcuts [c.bytes] chunks rfl
  obtain ⟨receiver', whole, left, held', rfl, hcall, hstands', hcount⟩ := callback_stands hm (s := s) hstands hne hcut
  refine ⟨receiver', whole, left, held', rfl, hcall, ?_, ⟨⟨rest, hstands'⟩, hcuts.cons hcount⟩⟩
  have hbytes : (stream whole ++ held') ++ (chunks.flatten ++ rest) = (held ++ c.bytes) ++ (chunks.flatten ++ rest) := by
    rw [List.append_assoc, List.append_assoc, ← hstands'.bytes, ← stream_append, hstands.bytes]
  exact (List.append_cancel_right hbytes).symm

lemma Framed.buffers (h : Framed receiver frames held chunks) : Buffers receiver frames.head? held := by
  obtain ⟨⟨rest, hstands⟩, -⟩ := h
  rcases hstands.receiver with hnew | ⟨g, gs, rfl, hheader, hlt, hholds, -⟩
  · exact .inl hnew
  · refine .inr ⟨g, rfl, ?_, hheader, hlt, hholds⟩
    have hbytes := hstands.bytes
    rw [stream_cons] at hbytes
    exact List.prefix_of_prefix_length_le ⟨_, hbytes.symm⟩ (List.prefix_append ..) hlt.le

lemma Buffers.held_lt {f : Option GrpcFrame} (h : Buffers receiver f held) : ∀ g ∈ f, held.length < g.bytes.length := by
  intro g hg
  rcases h with ⟨rfl, -⟩ | ⟨g', hg', -, -, hlt, -⟩
  · rw [List.length_nil, g.bytes_length]
    omega
  · obtain rfl := Option.mem_unique hg hg'
    exact hlt

lemma Collected.delivered {bytes : Bytes} {messages : List Bytes} (h : Collected receiver frames bytes messages) :
    Delivered frames bytes messages := by
  obtain ⟨whole, rest, held, hfs, hmessages, rfl, hbuffers⟩ := h
  refine ⟨whole, rest, hfs, hmessages, List.prefix_append .., fun f hf => ?_⟩
  rw [List.length_append]
  exact Nat.add_lt_add_left (hbuffers.held_lt f hf) _

lemma framed_new (rest : Bytes) (hbytes : chunks.flatten ++ rest = stream frames)
    (hcut : ¬ CutInHeader frames chunks) : Framed .new frames [] chunks where
  stands := ⟨rest, ⟨by rw [List.nil_append, hbytes], .inl ⟨rfl, rfl, rfl, rfl⟩⟩⟩
  cuts c₁ c₂ hc hin := hcut ⟨c₁, c₂, hc, by simpa using hin⟩

end Frames

/-! ### A chunk as a run of the instance -/

section Deliver

variable {E : Env} {w w' : World} {r x : ReqId} {frames : List GrpcFrame}

lemma messageOf_frame (f : GrpcFrame) : messageOf f.bytes f.bytes.length = f.payload := by
  have hdrop : f.bytes.drop 5 = f.payload := List.drop_left' (by simp)
  have hsize : toSize ((f.bytes.length : ℤ) - 5) = f.payload.length := by
    have hlt := f.size_lt
    rw [f.bytes_length]
    unfold toSize
    omega
  rw [messageOf, hdrop, hsize, List.take_length]

lemma Within.pc (h : Within x w w') : w'.pc = w.pc ∧ w'.attached = w.attached :=
  ⟨congrArg (Option.map Frame.pc) (congrArg Loop.running h.loop), congrArg Loop.attached h.loop⟩

lemma call_pc (hpc : w.pc = some .perform) (c : Call) :
    (w.call c).pc = some .perform ∧ ∀ x ∈ w.attached, x ∈ (w.call c).attached := by
  have hadd : ∀ (accepted : Bool), ∀ x ∈ w.attached, x ∈ ((w.newRequest c.request).addHandle w.next accepted).attached := by
    intro accepted x hx
    cases accepted
    · exact hx
    · exact List.mem_cons_of_mem _ hx
  have h := w.called c
  generalize w.call c = v at h ⊢
  cases h with
  | noRequest => exact ⟨hpc, fun x hx => hx⟩
  | noHandle => exact ⟨hpc, fun x hx => hx⟩
  | async accepted => exact ⟨hpc, hadd accepted⟩
  | inside accepted => exact ⟨hpc, hadd accepted⟩
  | waits accepted hs hc hr =>
    rw [World.pc, hr] at hpc
    cases hpc

lemma run_calls (hpc : w.pc = some .perform) (calls : List Call) :
    run (World.step E) w (calls.map .call) = some (calls.foldl World.call w) ∧
      (calls.foldl World.call w).pc = some .perform ∧
      ∀ x ∈ w.attached, x ∈ (calls.foldl World.call w).attached := by
  induction calls generalizing w with
  | nil => exact ⟨rfl, hpc, fun x hx => hx⟩
  | cons c calls ih =>
    obtain ⟨hpc', hatt⟩ := call_pc hpc c
    obtain ⟨hrun, hlast, hatt'⟩ := ih hpc'
    refine ⟨run_cons_eq_some.mpr ⟨w.call c, if_pos (.inr hpc), hrun⟩, hlast, fun x hx => hatt' x (hatt x hx)⟩

lemma besides_calls (calls : List Call) :
    (calls.map Act.call).filter (fun a => !a.isMessage) = calls.map Act.call :=
  List.filter_eq_self.mpr fun a ha => by
    obtain ⟨c, -, rfl⟩ := List.mem_map.mp ha
    rfl

lemma messagesTo_calls (x : ReqId) (calls : List Call) : messagesTo x (calls.map Act.call) = [] :=
  List.filterMap_eq_nil_iff.mpr fun a ha => by
    obtain ⟨c, -, rfl⟩ := List.mem_map.mp ha
    rfl

lemma messagesTo_append (x : ReqId) (as bs : List Act) :
    messagesTo x (as ++ bs) = messagesTo x as ++ messagesTo x bs := List.filterMap_append ..

/-- Messages for a request and API calls spare the released requests, if the parent of the request is none of
them. -/
lemma every_spares {acts : List Act} (ho : w.Ok) (hr : r < w.next) (hspare : w.SparesReleased (.message r []))
    (hacts : ∀ a ∈ acts, (∃ m, a = .message r m) ∨ ∃ c, a = .call c) :
    Every (World.step E) World.SparesReleased w acts := by
  induction acts generalizing w with
  | nil => trivial
  | cons a acts ih =>
    have ha := hacts a List.mem_cons_self
    refine ⟨?_, fun w' h => ih (ho.step h) (hr.trans_le (World.step_next h).1) (fun p hp => ?_)
      fun b hb => hacts b (List.mem_cons_of_mem a hb)⟩
    · rcases ha with ⟨m, rfl⟩ | ⟨c, rfl⟩
      · exact hspare
      · trivial
    · rw [Request.fixed_parent (World.step_fixed h hr)] at hp
      have hp := hspare p hp
      rw [World.step_requests_eq h]
      rcases ha with ⟨m, rfl⟩ | ⟨c, rfl⟩
      · exact hp
      · dsimp only
        split
        · exact hp
        · exact List.mem_append_left _ hp

lemma deliver_none (frames : List GrpcFrame) : deliver (handlers E r) none frames = none := by
  induction frames with
  | nil => rfl
  | cons f frames ih => exact ih

/-- A chunk with no API calls to come completes no frame. -/
lemma deliver_nil (h : deliver (handlers E r) (some (w, [])) frames = some (w', [])) : frames = [] ∧ w = w' := by
  cases frames with
  | nil => exact ⟨rfl, congrArg Prod.fst (Option.some.inj h)⟩
  | cons f frames =>
    have hnone : deliver (handlers E r) none frames = some (w', []) := h
    rw [deliver_none] at hnone
    cases hnone

/-- **The frames that a chunk completes are messages of the instance**, with the API calls between them. -/
lemma deliver_run {calls : List (List Call)} (hpc : w.pc = some .perform) (hr : r ∈ w.attached)
    (h : deliver (handlers E r) (some (w, calls)) frames = some (w', [])) :
    ∃ acts, run (World.step E) w acts = some w' ∧
      acts.filter (fun a => !a.isMessage) = calls.flatten.map .call ∧
      (∀ a ∈ acts, (∃ m, a = .message r m) ∨ ∃ c, a = .call c) ∧
      ∀ x, messagesTo x acts = if r = x then frames.map GrpcFrame.payload else [] := by
  induction frames generalizing w calls with
  | nil =>
    obtain ⟨rfl, rfl⟩ := Prod.mk.inj (Option.some.inj h)
    exact ⟨[], rfl, rfl, by simp, fun x => by split <;> rfl⟩
  | cons f frames ih =>
    cases calls with
    | nil => cases (deliver_nil h).1
    | cons now calls =>
      have hstep : deliver (handlers E r) (some (w, now :: calls)) (f :: frames) =
          deliver (handlers E r) (if w.nullReceipt r then none
            else some (now.foldl World.call (processMessage E w r f.payload), calls)) frames := by
        show deliver (handlers E r) _ frames = _
        congr 1
        simp only [handlers, messageOf_frame]
        split <;> rfl
      rw [hstep] at h
      split at h
      · rw [deliver_none] at h
        cases h
      · next hnull =>
        have hwithin := Within.processMessage E w r f.payload
        obtain ⟨hrun, hpc', hatt⟩ := run_calls (E := E) (hwithin.pc.1.trans hpc) now
        obtain ⟨acts, hacts, hbesides, hkinds, hmessages⟩ := ih hpc' (hatt r (hwithin.pc.2 ▸ hr)) h
        refine ⟨.message r f.payload :: (now.map .call ++ acts), ?_, ?_, ?_, fun x => ?_⟩
        · exact run_cons_eq_some.mpr
            ⟨_, if_pos ⟨hpc, hr, hnull⟩, run_append_eq_some.mpr ⟨_, hrun, hacts⟩⟩
        · rw [List.filter_cons_of_neg (by simp [Act.isMessage]), List.filter_append, besides_calls, hbesides,
            List.flatten_cons, List.map_append]
        · intro a ha
          rcases List.mem_cons.mp ha with rfl | ha
          · exact .inl ⟨_, rfl⟩
          · rcases List.mem_append.mp ha with ha | ha
            · obtain ⟨c, -, rfl⟩ := List.mem_map.mp ha
              exact .inr ⟨c, rfl⟩
            · exact hkinds a ha
        · have hmessage : messagesTo x (.message r f.payload :: (now.map .call ++ acts)) =
              (if r = x then [f.payload] else []) ++ messagesTo x (now.map .call ++ acts) := by
            by_cases hx : r = x
            · rw [if_pos hx]
              exact List.filterMap_cons_some (if_pos hx)
            · rw [if_neg hx]
              exact List.filterMap_cons_none (if_neg hx)
          rw [hmessage, messagesTo_append, messagesTo_calls, List.nil_append, hmessages]
          split <;> rfl

end Deliver

/-! ### Sessions as runs -/

section Refines

variable {E : Env} {s s' : Session} {e : Event} {es more : List Event} {frames : ReqId → List GrpcFrame} {held : ReqId → Bytes}

/-- **One step of a session**: the acts of the event, and for each request the messages of the frames that it
completes. -/
lemma Session.step_refines (hm : ∀ n, E.malloc n = true) (ho : s.world.Ok) (hspare : s.Spares e)
    (hframed : ∀ r, Framed (s.receivers r) (frames r) (held r) (chunksTo r (e :: es))) (h : s.step E e = some s') :
    ∃ acts, run (World.step E) s.world acts = some s'.world ∧
      Every (World.step E) World.SparesReleased s.world acts ∧ acts.filter (fun a => !a.isMessage) = e.acts ∧
      ∀ r, ∃ whole rest held', frames r = whole ++ rest ∧ messagesTo r acts = whole.map GrpcFrame.payload ∧
        held r ++ (chunksTo r [e]).flatten = stream whole ++ held' ∧
        Framed (s'.receivers r) rest held' (chunksTo r es) := by
  -- an event without a chunk
  have hstill : ∀ {acts : List Act}, (∀ r, e.chunkTo r = none) → s'.receivers = s.receivers →
      (∀ r, messagesTo r acts = []) → ∀ r, ∃ whole rest held', frames r = whole ++ rest ∧
        messagesTo r acts = whole.map GrpcFrame.payload ∧ held r ++ (chunksTo r [e]).flatten = stream whole ++ held' ∧
        Framed (s'.receivers r) rest held' (chunksTo r es) := by
    intro acts hnone hreceivers hmessages r
    have hchunks : ∀ es, chunksTo r (e :: es) = chunksTo r es := fun es => List.filterMap_cons_none (hnone r)
    refine ⟨[], frames r, held r, rfl, hmessages r, ?_, ?_⟩
    · rw [hchunks]
      simp [chunksTo]
    · rw [hreceivers, ← hchunks]
      exact hframed r
  cases e with
  | loop a =>
    simp only [Session.step, Option.ite_none_left_eq_some, Option.map_eq_some_iff] at h
    obtain ⟨hloop, w, hw, rfl⟩ := h
    have hmessage : a.isMessage = false ∧ ∀ r, a.messageTo r = none := by
      cases a <;> first | exact ⟨rfl, fun _ => rfl⟩ | exact absurd rfl hloop
    refine ⟨[a], run_cons_eq_some.mpr ⟨w, hw, rfl⟩, ⟨hspare, fun _ _ => trivial⟩, by simp [hmessage.1, Event.acts], ?_⟩
    exact hstill (fun _ => rfl) rfl fun r => List.filterMap_cons_none (hmessage.2 r)
  | header r line =>
    simp only [Session.step, Option.ite_none_right_eq_some] at h
    obtain ⟨hguard, h⟩ := h
    have hacts : Event.acts (.header r line) = ((headerError line).map (Act.error r)).toList := rfl
    rw [hacts]
    split at h
    · next hline =>
      obtain rfl := Option.some.inj h
      refine ⟨[], rfl, trivial, by rw [hline]; rfl, hstill (fun _ => rfl) rfl fun _ => rfl⟩
    · next text hline =>
      obtain rfl := Option.some.inj h
      refine ⟨[.error r text], run_cons_eq_some.mpr ⟨_, if_pos hguard, rfl⟩,
        ⟨hspare text hline, fun _ _ => trivial⟩, by rw [hline]; rfl, ?_⟩
      exact hstill (fun _ => rfl) rfl fun _ => rfl
  | body r chunk calls =>
    simp only [Session.step, Option.ite_none_right_eq_some] at h
    obtain ⟨⟨hpc, hr, hne⟩, h⟩ := h
    have hself : ∀ es, chunksTo r (.body r chunk calls :: es) = chunk.bytes :: chunksTo r es :=
      fun es => List.filterMap_cons_some (if_pos rfl)
    have hother : ∀ {x : ReqId}, r ≠ x → ∀ es, chunksTo x (.body r chunk calls :: es) = chunksTo x es :=
      fun hx es => List.filterMap_cons_none (if_neg hx)
    have hmine := hframed r
    rw [hself] at hmine
    obtain ⟨receiver, whole, rest, held', hfs, hcall, hbytes, hafter⟩ :=
      hmine.callback (H := handlers E r) hm hne (some (s.world, calls))
    rw [hcall] at h
    split at h
    · next receiver' w ret heq =>
      obtain ⟨rfl, hdeliver, -⟩ : receiver = receiver' ∧ deliver (handlers E r) (some (s.world, calls)) whole = some (w, []) ∧
          chunk.bytes.length = ret := by simpa using heq
      obtain rfl := Option.some.inj h
      have hmine' : (⟨w, Function.update s.receivers r receiver⟩ : Session).receivers r = receiver :=
        Function.update_self ..
      have hothers' : ∀ {x : ReqId}, r ≠ x →
          (⟨w, Function.update s.receivers r receiver⟩ : Session).receivers x = s.receivers x :=
        fun hx => Function.update_of_ne (Ne.symm hx) ..
      have hrun : ∃ acts, run (World.step E) s.world acts = some w ∧
          Every (World.step E) World.SparesReleased s.world acts ∧
          acts.filter (fun a => !a.isMessage) = calls.flatten.map .call ∧
          ∀ x, messagesTo x acts = if r = x then whole.map GrpcFrame.payload else [] := by
        by_cases hcalls : calls = []
        · subst hcalls
          obtain ⟨rfl, rfl⟩ := deliver_nil hdeliver
          exact ⟨[], rfl, trivial, rfl, fun x => by split <;> rfl⟩
        · obtain ⟨acts, hacts, hbesides, hkinds, hmessages⟩ := deliver_run hpc hr hdeliver
          exact ⟨acts, hacts, every_spares ho (ho.attached_lt r hr) (hspare hcalls) hkinds, hbesides, hmessages⟩
      obtain ⟨acts, hacts, hspared, hbesides, hmessages⟩ := hrun
      refine ⟨acts, hacts, hspared, hbesides, fun x => ?_⟩
      rw [hmessages]
      by_cases hx : r = x
      · subst hx
        refine ⟨whole, rest, held', hfs, if_pos rfl, ?_, ?_⟩
        · rw [hself]
          simpa [chunksTo] using hbytes
        · rwa [hmine']
      · refine ⟨[], frames x, held x, rfl, if_neg hx, ?_, ?_⟩
        · rw [hother hx]
          simp [chunksTo]
        · rw [hothers' hx, ← hother hx es]
          exact hframed x
    · cases h

/-- **A session is a run of its instance**, from wherever the receivers stand, and with more to come. -/
theorem Session.run_refines (hm : ∀ n, E.malloc n = true) (ho : s.world.Ok) (held : ReqId → Bytes)
    (hframed : ∀ r, Framed (s.receivers r) (frames r) (held r) (chunksTo r (es ++ more)))
    (hspare : Every (Session.step E) Session.Spares s es) (hrun : run (Session.step E) s es = some s') :
    ∃ acts, run (World.step E) s.world acts = some s'.world ∧
      Every (World.step E) World.SparesReleased s.world acts ∧
      acts.filter (fun a => !a.isMessage) = es.flatMap Event.acts ∧
      ∀ r, ∃ whole rest held', frames r = whole ++ rest ∧ messagesTo r acts = whole.map GrpcFrame.payload ∧
        held r ++ (chunksTo r es).flatten = stream whole ++ held' ∧
        Framed (s'.receivers r) rest held' (chunksTo r more) := by
  induction es generalizing s frames held with
  | nil =>
    obtain rfl := Option.some.inj hrun
    exact ⟨[], rfl, trivial, rfl, fun r => ⟨[], frames r, held r, rfl, rfl, by simp [chunksTo], hframed r⟩⟩
  | cons e es ih =>
    obtain ⟨s₁, hstep, hrun⟩ := run_cons_eq_some.mp hrun
    obtain ⟨acts₁, hacts₁, hspare₁, hbesides₁, hmessages₁⟩ := Session.step_refines hm ho hspare.1 hframed hstep
    choose whole₁ rest₁ held₁ hfs₁ hwhole₁ hbytes₁ hframed₁ using hmessages₁
    have ho₁ : s₁.world.Ok := run_invariant (fun _ _ _ ho _ h => World.Ok.step ho h) ho hspare₁ hacts₁
    obtain ⟨acts₂, hacts₂, hspare₂, hbesides₂, hmessages₂⟩ := ih ho₁ held₁ hframed₁ (hspare.2 s₁ hstep) hrun
    refine ⟨acts₁ ++ acts₂, run_append_eq_some.mpr ⟨_, hacts₁, hacts₂⟩, ?_, ?_, fun r => ?_⟩
    · refine every_append.mpr ⟨hspare₁, fun w hw => ?_⟩
      rwa [← Option.some.inj (hacts₁.symm.trans hw)]
    · rw [List.filter_append, hbesides₁, hbesides₂, List.flatMap_cons]
    · obtain ⟨whole₂, rest₂, held₂, hfs₂, hwhole₂, hbytes₂, hframed₂⟩ := hmessages₂ r
      refine ⟨whole₁ r ++ whole₂, rest₂, held₂, ?_, ?_, ?_, hframed₂⟩
      · rw [hfs₁, hfs₂, List.append_assoc]
      · rw [messagesTo_append, hwhole₁, hwhole₂, List.map_append]
      · have hsplit : (chunksTo r (e :: es)).flatten = (chunksTo r [e]).flatten ++ (chunksTo r es).flatten := by
          rw [← List.flatten_append, ← chunksTo_append, List.singleton_append]
        rw [hsplit, ← List.append_assoc, hbytes₁, List.append_assoc, hbytes₂, ← List.append_assoc, stream_append]

/-- The body of each request consists of frames, as far as it has come, and no chunk ends inside a header. -/
def BodiesFramed (frames : ReqId → List GrpcFrame) (es : List Event) : Prop :=
  ∀ r, (chunksTo r es).flatten <+: stream (frames r) ∧ ¬ CutInHeader (frames r) (chunksTo r es)

lemma BodiesFramed.start (h : BodiesFramed frames es) (receipts : ℕ → TransactionReceipt) (accounts : ℕ → AccountState)
    (r : ReqId) : Framed ((Session.start receipts accounts).receivers r) (frames r) [] (chunksTo r es) := by
  obtain ⟨⟨rest, hrest⟩, hcut⟩ := h r
  exact framed_new rest hrest hcut

/-- **What libcurl hands over, line by line and chunk by chunk, comes to a run of the instance**, however the lines and
chunks of different transfers are mixed, if `malloc` succeeds, no chunk ends inside the header of a frame, and no
released request is written to.  The run has the calls and the turns of the loop of the session, the error texts of the
header lines in their places, and for each request the messages in the frames that have come whole, in turn, and no
other; its response buffer holds what has come of the next frame. -/
theorem session_refines (hm : ∀ n, E.malloc n = true) {receipts : ℕ → TransactionReceipt} {accounts : ℕ → AccountState}
    (hframes : BodiesFramed frames es) (hspare : Every (Session.step E) Session.Spares (.start receipts accounts) es)
    (hrun : run (Session.step E) (.start receipts accounts) es = some s) :
    ∃ acts, run (World.step E) (.start receipts accounts) acts = some s.world ∧
      Every (World.step E) World.SparesReleased (.start receipts accounts) acts ∧
      acts.filter (fun a => !a.isMessage) = es.flatMap Event.acts ∧
      ∀ r, Collected (s.receivers r) (frames r) (chunksTo r es).flatten (messagesTo r acts) := by
  have hframed := hframes.start receipts accounts
  have hall : ∀ r, Framed ((Session.start receipts accounts).receivers r) (frames r) [] (chunksTo r (es ++ [])) := by
    simpa using hframed
  obtain ⟨acts, hacts, hspared, hbesides, hmessages⟩ :=
    Session.run_refines hm (.start receipts accounts) (fun _ => []) hall hspare hrun
  refine ⟨acts, hacts, hspared, hbesides, fun r => ?_⟩
  obtain ⟨whole, rest, held', hfs, hwhole, hbytes, hafter⟩ := hmessages r
  exact ⟨whole, rest, held', hfs, hwhole, hbytes, hafter.buffers⟩

lemma messagesTo_new {w : World} {acts : List Act} {receipts : ℕ → TransactionReceipt} {accounts : ℕ → AccountState}
    (h : run (World.step E) (.start receipts accounts) acts = some w) {r : ReqId} (hr : w.next ≤ r) :
    messagesTo r acts = [] := by
  induction acts using List.reverseRecOn generalizing w with
  | nil => rfl
  | append_singleton acts a ih =>
    obtain ⟨v, hv, h⟩ := run_concat_eq_some.mp h
    have hok := (World.Called'.run hv (.start E receipts accounts)).ok
    have hnext := (World.step_next h).1.trans hr
    rw [messagesTo_append, ih hv hnext, List.nil_append]
    refine List.filterMap_eq_nil_iff.mpr fun b hb => ?_
    obtain rfl := List.mem_singleton.mp hb
    cases b with
    | message x m =>
      refine if_neg ?_
      rintro rfl
      simp only [World.step, Option.ite_none_right_eq_some] at h
      exact absurd hnext (not_le.mpr (hok.attached_lt _ h.1.2.1))
    | _ => rfl

/-- **A subscription is told what comes for it, byte by byte**, if `malloc` succeeds, no chunk ends inside the header of a
frame, and no released request is written to.  Whatever else comes in between, its callback has been invoked once for
each frame that has come whole and decodes, in turn, with what it decodes to, and never otherwise.  Its request is there
to the end, as is that of every transfer. -/
theorem subscription_frames {c : Call} {accepted : Bool} (hm : ∀ n, E.malloc n = true)
    {receipts : ℕ → TransactionReceipt} {accounts : ℕ → AccountState} {before after : List Event}
    (hc : c.service.keepActive = true) (hs : c.start = .sent accepted)
    (hframes : BodiesFramed frames (before ++ .loop (.call c) :: after))
    (hspare : Every (Session.step E) Session.Spares (.start receipts accounts) (before ++ .loop (.call c) :: after))
    (hbefore : run (Session.step E) (.start receipts accounts) before = some s)
    (hafter : run (Session.step E) s (.loop (.call c) :: after) = some s') :
    (∃ cb messages, c.callback = some cb ∧
      Delivered (frames s.world.next) (chunksTo s.world.next (before ++ .loop (.call c) :: after)).flatten messages ∧
      s'.world.history s.world.next =
        (messages.filterMap (c.service.delivered E)).map fun o => ⟨s.world.next, cb, c.arg, o⟩) ∧
    s.world.next ∈ s'.world.requests ∧ s'.world.TransfersLive := by
  obtain ⟨hspare₁, hspare⟩ := every_append.mp hspare
  obtain ⟨acts₁, hacts₁, hevery₁, -, hmessages₁⟩ := Session.run_refines hm (.start receipts accounts) (fun _ => [])
    (hframes.start receipts accounts) hspare₁ hbefore
  obtain ⟨s₁, hcall, hafter⟩ := run_cons_eq_some.mp hafter
  have hspare₂ := (hspare s hbefore).2 s₁ hcall
  simp only [Session.step, Option.ite_none_left_eq_some, Option.map_eq_some_iff] at hcall
  obtain ⟨-, w₁, hcall, rfl⟩ := hcall
  choose whole₁ rest₁ held₁ hfs₁ hwhole₁ hbytes₁ hframed₁ using hmessages₁
  have hskip : ∀ r, chunksTo r (.loop (.call c) :: after) = chunksTo r (after ++ []) := fun r => by
    rw [List.append_nil]
    exact List.filterMap_cons_none rfl
  have hframed : ∀ r, Framed (s.receivers r) (rest₁ r) (held₁ r) (chunksTo r (after ++ [])) := fun r => by
    rw [← hskip]
    exact hframed₁ r
  have hok : s.world.Ok :=
    run_invariant (fun _ _ _ ho _ h => World.Ok.step ho h) (.start receipts accounts) hevery₁ hacts₁
  obtain ⟨acts₂, hacts₂, hevery₂, -, hmessages₂⟩ :=
    Session.run_refines (s := ⟨w₁, s.receivers⟩) hm (hok.step hcall) held₁ hframed hspare₂ hafter
  obtain ⟨⟨cb, hcb, hhistory⟩, hheld⟩ := subscription_history hc hs hacts₁ hcall hacts₂
  have hlive : s'.world.TransfersLive := by
    have hall : run (World.step E) (.start receipts accounts) (acts₁ ++ .call c :: acts₂) = some s'.world :=
      run_append_eq_some.mpr ⟨s.world, hacts₁, run_cons_eq_some.mpr ⟨w₁, hcall, hacts₂⟩⟩
    refine (spared_of_sparesReleased hall (every_append.mpr ⟨hevery₁, fun w hw => ?_⟩)).live
    obtain rfl := Option.some.inj (hacts₁.symm.trans hw)
    refine ⟨trivial, fun w hw => ?_⟩
    rwa [← Option.some.inj (hcall.symm.trans hw)]
  obtain ⟨whole₂, rest₂, held₂, hfs₂, hwhole₂, hbytes₂, hframed₂⟩ := hmessages₂ s.world.next
  refine ⟨⟨cb, _, hcb, ?_, hhistory⟩, hheld, hlive⟩
  have hnil : whole₁ s.world.next = [] := by
    have hnew := hwhole₁ s.world.next
    rw [messagesTo_new hacts₁ le_rfl] at hnew
    exact List.map_eq_nil_iff.mp hnew.symm
  have hheld := hbytes₁ s.world.next
  have hframes := hfs₁ s.world.next
  rw [hnil] at hheld hframes
  refine Collected.delivered ⟨whole₂, rest₂, held₂, hframes.trans hfs₂, hwhole₂, ?_, hframed₂.buffers⟩
  rw [chunksTo_append, List.flatten_append, hskip, List.append_nil, ← hbytes₂]
  exact congrArg (· ++ _) hheld

end Refines

/-! ### A session -/

lemma cutInHeader_iff {frames : List GrpcFrame} {chunks : List Bytes} : CutInHeader frames chunks ↔
    ∃ n ∈ List.range (chunks.length + 1), InHeader frames (chunks.take n).flatten.length := by
  constructor
  · rintro ⟨c₁, c₂, rfl, hin⟩
    refine ⟨c₁.length, List.mem_range.mpr ?_, by rwa [List.take_left]⟩
    rw [List.length_append]
    omega
  · rintro ⟨n, -, hin⟩
    exact ⟨chunks.take n, chunks.drop n, (List.take_append_drop n chunks).symm, hin⟩

instance InHeader.decidable : ∀ frames p, Decidable (InHeader frames p)
  | [], _ => .isFalse id
  | f :: fs, p =>
    have := InHeader.decidable fs (p - f.bytes.length)
    decidable_of_iff (if p < f.bytes.length then 0 < p ∧ p < 5 else InHeader fs (p - f.bytes.length)) Iff.rfl

instance (frames : List GrpcFrame) (chunks : List Bytes) : Decidable (CutInHeader frames chunks) :=
  decidable_of_iff _ cutInHeader_iff.symm

def zeroChunk (bytes : Bytes) : Chunk := ⟨bytes, fun _ => 0⟩

/-- The frames of a stream of events, for the request 0, and of the answer to a query, for the request 1. -/
def sampleFrames : ReqId → List GrpcFrame
  | 0 => [⟨0, [1, 1], Nat.lt_of_sub_eq_succ rfl⟩, ⟨0, [9], Nat.lt_of_sub_eq_succ rfl⟩, ⟨0, [2, 2], Nat.lt_of_sub_eq_succ rfl⟩]
  | 1 => [⟨0, queryAnswer, Nat.lt_of_sub_eq_succ rfl⟩]
  | _ => []

/-- The frames are cut in payloads and behind a header, the answer comes in between, and the callback of the first event
makes a query. -/
def sampleEvents : List Event :=
  [.loop (.call asyncQuery), .loop .process, .loop .enter, .body 0 (zeroChunk [0, 0, 0, 0, 2, 1]) [],
    .body 1 (zeroChunk ([0, 0, 0, 0, 3] ++ queryAnswer)) [[]],
    .body 0 (zeroChunk [1, 0, 0, 0, 0, 1, 9, 0, 0, 0, 0, 2]) [[asyncQuery], []], .body 0 (zeroChunk [2]) [],
    .header 1 (grpcMessageText ++ [0x78, 0x0d, 0x0a, 0])]

lemma bodiesFramed_sample : BodiesFramed sampleFrames (.loop (.call eventsCall) :: sampleEvents) := by
  intro r
  match r with
  | 0 => decide
  | 1 => decide
  | r + 2 =>
    refine ⟨List.nil_prefix, ?_⟩
    rintro ⟨c₁, c₂, -, hin⟩
    exact hin

lemma spares_sample : Every (Session.step eventEnv) Session.Spares (.start (fun _ => .initial) fun _ => ⟨false, 0⟩)
    (.loop (.call eventsCall) :: sampleEvents) := by
  decide +kernel

/-- A stream and a query at a time. -/
theorem session_refines_sample : ∃ s, run (Session.step eventEnv) (.start (fun _ => .initial) fun _ => ⟨false, 0⟩)
      (.loop (.call eventsCall) :: sampleEvents) = some s ∧
    ∃ acts, run (World.step eventEnv) newInstance acts = some s.world ∧
      Every (World.step eventEnv) World.SparesReleased newInstance acts ∧
      acts.filter (fun a => !a.isMessage) = (Event.loop (.call eventsCall) :: sampleEvents).flatMap Event.acts ∧
      ∀ r, Collected (s.receivers r) (sampleFrames r) (chunksTo r (.loop (.call eventsCall) :: sampleEvents)).flatten
        (messagesTo r acts) := by
  obtain ⟨s, hrun⟩ := Option.isSome_iff_exists.mp (show (run (Session.step eventEnv)
    (.start (fun _ => .initial) fun _ => ⟨false, 0⟩) (.loop (.call eventsCall) :: sampleEvents)).isSome = true by
      decide +kernel)
  exact ⟨s, hrun, session_refines (fun _ => rfl) bodiesFramed_sample spares_sample hrun⟩

/-- The same stream. -/
theorem subscription_frames_sample : ∃ s, run (Session.step eventEnv) (.start (fun _ => .initial) fun _ => ⟨false, 0⟩)
      (.loop (.call eventsCall) :: sampleEvents) = some s ∧
    (∃ cb messages, eventsCall.callback = some cb ∧
      Delivered (sampleFrames 0) (chunksTo 0 (.loop (.call eventsCall) :: sampleEvents)).flatten messages ∧
      s.world.history 0 = (messages.filterMap (Service.events.delivered eventEnv)).map fun o => ⟨0, cb, 2, o⟩) ∧
    0 ∈ s.world.requests ∧ s.world.TransfersLive := by
  obtain ⟨s, hrun⟩ := Option.isSome_iff_exists.mp (show (run (Session.step eventEnv)
    (.start (fun _ => .initial) fun _ => ⟨false, 0⟩) (.loop (.call eventsCall) :: sampleEvents)).isSome = true by
      decide +kernel)
  have hstart : eventsCall.start = .sent true := rfl
  have hbefore : run (Session.step eventEnv) (.start (fun _ => .initial) fun _ => ⟨false, 0⟩) [] =
      some (.start (fun _ => .initial) fun _ => ⟨false, 0⟩) := rfl
  exact ⟨s, hrun, subscription_frames (fun _ => rfl) rfl hstart bodiesFramed_sample spares_sample hbefore hrun⟩

end Libaergo
