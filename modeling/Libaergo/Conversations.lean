import Libaergo.Posts
import Libaergo.Socket.Invocations

/-!
# Questions and answers (`aergo.c`, `socket.c`)

An instance together with what it has posted for its requests: an API call posts what it asks, a transaction its bytes,
and the receipt of a transaction is asked for by its hash.  A node reads each post and answers as it likes; what
libcurl hands over for a request is an answer to its post.  As long as nothing comes for a released request, whatever
calls are made, from user callbacks too, and in whatever order the answers come, each callback is told an error text,
or what an answer of the node to the question of its own call decodes to (`answers_own_question`).
-/

namespace Libaergo.Post

open Lib Arguments

/-! ### Moves -/

/-- What is done: an API call that asks, one that sends a transaction in these bytes, or a turn of the loop. -/
inductive Move where
  | ask (api : ApiCall) (start : Start)
  | transact (c : Call) (hc : c.service = .transfer ∨ c.service = .contractCall) (data : Bytes)
  | act (a : Act)

/-- An instance, and the address and the bytes it has posted for its requests. -/
structure Party where
  world : World
  posts : ReqId → Option (Bytes × Bytes)

def Party.start (receipts : ℕ → TransactionReceipt) (accounts : ℕ → AccountState) : Party where
  world := .start receipts accounts
  posts := fun _ => none

def Act.isCall : Act → Bool
  | .call _ => true
  | _ => false

section Step

variable (S : Setup) (connection : Connection)

/-- What an API call posts, and its request. -/
def Move.posting : Move → Option (Bytes × Call)
  | .ask api start => api.posting S start
  | .transact c _ data => some (data, c)
  | .act _ => none

def Move.before (w : World) : Move → World
  | .ask api _ => api.before w
  | _ => w

/-- What is asked with a move; the sender of a transaction wants to know its receipt. -/
def Move.question : Move → Option Ask
  | .ask api _ => api.ask S
  | .transact c _ _ => some (.getReceipt c.txnHash.toList)
  | .act _ => none

/-- The posts after a turn of the loop, which may have begun to fetch a receipt. -/
def Party.fetched (p : Party) : Act → ReqId → Option (Bytes × Bytes)
  | .checkReceipts start =>
    match p.world.wantingReceipt with
    | none => p.posts
    | some r =>
      if start = .noRequest then p.posts
      else
        Function.update p.posts p.world.next
          ((encodeTxnHash 256 (p.world.heap r).txnHash).toOption.map fun data =>
            (requestUrl connection .receipt, data))
  | _ => p.posts

def Party.posted (p : Party) (c : Call) (data : Bytes) : ReqId → Option (Bytes × Bytes) :=
  if c.start = .noRequest then p.posts
  else Function.update p.posts p.world.next (some (requestUrl connection c.service, data))

/-- **One move**, if it can happen; a call that posts nothing is refused. -/
def Party.step (p : Party) : Move → Option Party
  | .act a => if Act.isCall a then none else (p.world.step S.env a).map fun w => ⟨w, p.fetched connection a⟩
  | move =>
    match move.posting S with
    | none => some p
    | some (data, c) => ((move.before p.world).step S.env (.call c)).map fun w => ⟨w, p.posted connection c data⟩

/-- A node: the messages that it may answer an ask with. -/
abbrev Node := Ask → Bytes → Prop

/-- A message that comes for a post which asks something is an answer of the node. -/
def FromNode (node : Node) (p : Party) (move : Move) : Prop :=
  ∀ r m, move = .act (.message r m) → ∀ url data ask, p.posts r = some (url, data) → readPost url data = some ask →
    node ask m

/-- No released request is written to in the move. -/
def Party.Spares (p : Party) : Move → Prop
  | .act a => p.world.SparesReleased a
  | _ => True

/-- In the course of these moves, the request was made by this one. -/
def MadeBy (p₀ : Party) (moves : List Move) (r : ReqId) (move : Move) : Prop :=
  ∃ before after p, moves = before ++ move :: after ∧ run (Party.step S connection) p₀ before = some p ∧
    p.world.next = r

def Ask.handler : Ask → ResponseHandler
  | .queryContract _ _ => .query
  | .queryContractState _ _ _ _ => .queryStateVar
  | .listEventStream _ => .event
  | .getReceipt _ => .receipt
  | .listBlockStream => .block
  | .blockchain => .blockchainStatus
  | .getState _ => .accountState

/-- The node has answered the ask, and the outcome is what the answer comes to for the handler of the ask. -/
def Answers (E : Env) (node : Node) (ask : Ask) (o : Libaergo.Outcome) : Prop :=
  ∃ m, node ask m ∧ ∃ q : Request, q.processResponse = ask.handler ∧ q.outcome E m = some o

/-- **An invocation is told to its call**: it suits the call, and tells an error text, or an answer to what was asked
with the call. -/
def Told (node : Node) (p₀ : Party) (moves : List Move) (i : Invocation) : Prop :=
  ∃ move data c, MadeBy S connection p₀ moves i.call move ∧ move.posting S = some (data, c) ∧ c.Suits i ∧
    (i.outcome.isError = true ∨ ∃ ask, move.question S = some ask ∧ Answers S.env node ask i.outcome)

end Step

/-! ### What a move does -/

section Cases

variable {S : Setup} {connection : Connection} {p p' : Party} {move : Move} {r : ReqId}

/-- **What a move can do.** -/
inductive Party.Moved (S : Setup) (connection : Connection) (p : Party) : Move → Party → Prop
  | refused (move : Move) : p.Moved S connection move p
  | called (move : Move) (accounts : ℕ → AccountState) (c : Call) (data : Bytes) (w : World)
      (hposting : move.posting S = some (data, c))
      (hstep : { p.world with accounts := accounts }.step S.env (.call c) = some w) :
      p.Moved S connection move ⟨w, p.posted connection c data⟩
  | acted (a : Act) (w : World) (hcall : Act.isCall a = false) (hstep : p.world.step S.env a = some w) :
      p.Moved S connection (.act a) ⟨w, p.fetched connection a⟩

lemma Party.moved (h : p.step S connection move = some p') : p.Moved S connection move p' := by
  have hcalled : ∀ {move : Move}, (match move.posting S with
      | none => some p
      | some (data, c) => ((move.before p.world).step S.env (.call c)).map fun w =>
          (⟨w, p.posted connection c data⟩ : Party)) = some p' → p.Moved S connection move p' := by
    intro move h
    have hbefore : ∃ accounts, move.before p.world = { p.world with accounts := accounts } := by
      cases move with
      | ask api start => cases api <;> exact ⟨_, rfl⟩
      | _ => exact ⟨_, rfl⟩
    obtain ⟨accounts, hbefore⟩ := hbefore
    split at h
    · obtain rfl := Option.some.inj h
      exact .refused move
    · next data c hposting =>
      obtain ⟨w, hw, rfl⟩ := Option.map_eq_some_iff.mp h
      exact .called move accounts c data w hposting (hbefore ▸ hw)
  cases move with
  | ask api start => exact hcalled h
  | transact c hc data => exact hcalled h
  | act a =>
    obtain ⟨hcall, h⟩ := Option.ite_none_left_eq_some.mp h
    obtain ⟨w, hw, rfl⟩ := Option.map_eq_some_iff.mp h
    exact .acted a w (by simpa using hcall) hw

lemma Party.spared_step (hp : p.world.Spared) (ha : p.Spares move) (h : p.step S connection move = some p') :
    p'.world.Spared := by
  cases Party.moved h with
  | refused => exact hp
  | called _ accounts c data w hposting hstep =>
    have hsame : { p.world with accounts := accounts }.Spared := ⟨hp.live, hp.uses⟩
    exact hsame.step (a := .call c) trivial hstep
  | acted a w hcall hstep => exact hp.step ha hstep

lemma Party.posted_of_ne (p : Party) (c : Call) (data : Bytes) (h : r ≠ p.world.next) :
    p.posted connection c data r = p.posts r := by
  unfold Party.posted
  split
  · rfl
  · exact Function.update_of_ne h ..

lemma Party.posted_next (p : Party) {c : Call} (data : Bytes) (h : c.start ≠ .noRequest) :
    p.posted connection c data p.world.next = some (requestUrl connection c.service, data) := by
  unfold Party.posted
  rw [if_neg h, Function.update_self]

lemma Party.fetched_of_ne (p : Party) (a : Act) (h : r ≠ p.world.next) : p.fetched connection a r = p.posts r := by
  cases a with
  | checkReceipts start =>
    unfold Party.fetched
    cases p.world.wantingReceipt with
    | none => rfl
    | some x =>
      dsimp only
      split
      · rfl
      · exact Function.update_of_ne h ..
  | _ => rfl

/-- The fetch of a receipt asks for the receipt of its transaction. -/
lemma Party.fetched_next (S : Setup) (connection : Connection) (p : Party) {start : Start} (hstart : start ≠ .noRequest)
    (h : p.world.wantingReceipt = some r) :
    ∃ data, p.fetched connection (.checkReceipts start) p.world.next = some (requestUrl connection .receipt, data) ∧
      ∀ (_ : 0x2f ∉ connection.host) (_ : -2 ^ 31 ≤ connection.port) (_ : connection.port < 2 ^ 31),
        readPost (requestUrl connection .receipt) data = some (.getReceipt (p.world.heap r).txnHash.toList) := by
  obtain ⟨fs, hmessage⟩ : ∃ fs, Inquiry.Message S.sha256 S.stack (.receipt (p.world.heap r).txnHash)
      (.getReceipt (p.world.heap r).txnHash.toList) fs :=
    (Inquiry.message (q := .receipt (p.world.heap r).txnHash) trivial).1 _ rfl
  have hencode : encodeTxnHash 256 (p.world.heap r).txnHash = .ok (encodeHttp2DataFrame (Wire.encode fs)) :=
    hmessage.encoded
  refine ⟨_, ?_, fun hslash hlo hhi => hmessage.read hslash hlo hhi⟩
  unfold Party.fetched
  rw [h]
  dsimp only
  rw [if_neg hstart, Function.update_self, hencode]
  rfl

end Cases

/-! ### What is known of a party -/

/-- The request is that of the call of a move, which sends a transaction, or asks what the node reads of the post. -/
def Made (S : Setup) (connection : Connection) (p₀ : Party) (moves : List Move) (q : Request)
    (post : Option (Bytes × Bytes)) (r : ReqId) : Prop :=
  ∃ move data c, MadeBy S connection p₀ moves r move ∧ move.posting S = some (data, c) ∧ q.fixed = c.request.fixed ∧
    (q.processResponse.IsTransaction ∨ ∃ url data ask, post = some (url, data) ∧ readPost url data = some ask ∧
      move.question S = some ask ∧ ask.handler = q.processResponse)

/-- The requests of API calls ask what their callers ask, and those for receipts ask for them; and what has been told
was told to its call. -/
structure Party.Ok (S : Setup) (connection : Connection) (node : Node) (p₀ : Party) (moves : List Move) (p : Party) :
    Prop where
  ok : p.world.Ok
  kin : ∀ x r, (p.world.heap x).parent = some r → (p.world.heap r).processResponse.IsTransaction
  made : ∀ r < p.world.next, (p.world.heap r).parent = none →
    Made S connection p₀ moves (p.world.heap r) (p.posts r) r
  fetched : ∀ x r, (p.world.heap x).parent = some r → ∃ url data, p.posts x = some (url, data) ∧
    readPost url data = some (.getReceipt (p.world.heap r).txnHash.toList)
  told : ∀ i ∈ p.world.log, Told S connection node p₀ moves i

section Run

variable {S : Setup} {connection : Connection} {node : Node} {p₀ p p' : Party} {moves : List Move} {move : Move}
  {r : ReqId} {i : Invocation}

lemma MadeBy.concat (h : MadeBy S connection p₀ moves r move) (last : Move) :
    MadeBy S connection p₀ (moves ++ [last]) r move := by
  obtain ⟨before, after, p, rfl, hrun, hr⟩ := h
  exact ⟨before, after ++ [last], p, by simp, hrun, hr⟩

lemma Told.concat (h : Told S connection node p₀ moves i) (last : Move) :
    Told S connection node p₀ (moves ++ [last]) i := by
  obtain ⟨move, data, c, hmade, hrest⟩ := h
  exact ⟨move, data, c, hmade.concat last, hrest⟩

lemma Made.concat {q : Request} {post : Option (Bytes × Bytes)} (h : Made S connection p₀ moves q post r)
    (last : Move) : Made S connection p₀ (moves ++ [last]) q post r := by
  obtain ⟨move, data, c, hmade, hrest⟩ := h
  exact ⟨move, data, c, hmade.concat last, hrest⟩

lemma Made.congr {q q' : Request} {post : Option (Bytes × Bytes)} (h : Made S connection p₀ moves q post r)
    (hq : q'.fixed = q.fixed) : Made S connection p₀ moves q' post r := by
  obtain ⟨move, data, c, hmade, hposting, hfixed, hrest⟩ := h
  refine ⟨move, data, c, hmade, hposting, hq.trans hfixed, ?_⟩
  rwa [Request.fixed_processResponse hq]

lemma ApiCall.ask_handler {api : ApiCall} {ask : Ask} (h : api.ask S = some ask) :
    ask.handler = api.service.handler := by
  obtain ⟨q, hinquiry, hask⟩ := Option.bind_eq_some_iff.mp h
  have hq : ask.handler = q.service.handler := by
    cases q with
    | events contractAddress eventName =>
      obtain ⟨-, hask⟩ := Option.ite_none_right_eq_some.mp hask
      obtain ⟨address, -, rfl⟩ := Option.map_eq_some_iff.mp hask
      rfl
    | query contractAddress function args =>
      obtain ⟨address, -, rfl⟩ := Option.map_eq_some_iff.mp hask
      rfl
    | stateVariable contractAddress varName =>
      obtain ⟨address, -, rfl⟩ := Option.map_eq_some_iff.mp hask
      rfl
    | _ =>
      obtain rfl := Option.some.inj hask
      rfl
  rw [hq, ApiCall.inquiry_service hinquiry]

lemma ApiCall.handler_not_isTransaction (api : ApiCall) : ¬ api.service.handler.IsTransaction := by
  rintro (h | h) <;> cases api <;> cases h

lemma outcome_isTransaction {E : Env} {q : Request} (h : q.processResponse.IsTransaction) (m : Bytes) :
    q.outcome E m = none := by
  unfold Request.outcome
  rcases h with h | h <;> rw [h]

lemma Move.question_isTransaction {data : Bytes} {c : Call} (hposting : move.posting S = some (data, c))
    (h : c.service.handler.IsTransaction) : move.question S = some (.getReceipt c.txnHash.toList) := by
  cases move with
  | ask api start =>
    have hservice := (ApiCall.call_eq (ApiCall.posting_eq_some.mp hposting).2.1).1
    exact absurd (hservice ▸ h) api.handler_not_isTransaction
  | transact c' hc data' =>
    obtain ⟨-, rfl⟩ := Prod.mk.inj (Option.some.inj hposting)
    rfl
  | act a => cases hposting

/-- A message that comes for a request answers the question of the call. -/
lemma Party.Ok.answers (hp : Party.Ok S connection node p₀ moves p) {x : ReqId} {m : Bytes} {o : Libaergo.Outcome}
    (hnode : FromNode node p (.act (.message x m))) (ho : (p.world.heap x).outcome S.env m = some o)
    (hi : p.world.invocation x o = some i) {data : Bytes} {c : Call} (hposting : move.posting S = some (data, c))
    (hfixed : (p.world.heap i.call).fixed = c.request.fixed)
    (hmade : (p.world.heap i.call).processResponse.IsTransaction ∨ ∃ url data ask,
      p.posts i.call = some (url, data) ∧ readPost url data = some ask ∧ move.question S = some ask ∧
        ask.handler = (p.world.heap i.call).processResponse) :
    ∃ ask, move.question S = some ask ∧ Answers S.env node ask i.outcome := by
  obtain ⟨cb, -, rfl⟩ := Option.map_eq_some_iff.mp hi
  dsimp only at hfixed hmade ⊢
  cases hparent : (p.world.heap x).parent with
  | none =>
    have hcall : p.world.callOf x = x := by simp [World.callOf, hparent]
    rw [hcall] at hmade
    rcases hmade with ht | ⟨url, data, ask, hpost, hread, hquestion, hhandler⟩
    · rw [outcome_isTransaction ht] at ho
      cases ho
    · exact ⟨ask, hquestion, m, hnode x m rfl url data ask hpost hread, _, hhandler.symm, ho⟩
  | some r =>
    have hcall : p.world.callOf x = r := World.callOf_child hparent
    rw [hcall] at hfixed
    obtain ⟨url, data, hpost, hread⟩ := hp.fetched x r hparent
    have ht : c.service.handler.IsTransaction := by
      have hkin := hp.kin x r hparent
      rwa [Request.fixed_processResponse hfixed] at hkin
    have hhash : (p.world.heap r).txnHash = c.txnHash := Request.fixed_txnHash hfixed
    rw [hhash] at hread
    exact ⟨_, Move.question_isTransaction hposting ht, m, hnode x m rfl url data _ hpost hread, _,
      (hp.ok.child_fields hparent).1, ho⟩

/-- **An invocation** that a turn of the loop brings is told to its call. -/
lemma Party.Ok.told_invokes (hp : Party.Ok S connection node p₀ moves p) {a : Act} {w : World}
    (hnode : FromNode node p (.act a)) (h : p.world.step S.env a = some w) (hi : p.world.Invokes S.env a i) :
    Told S connection node p₀ moves i := by
  obtain ⟨x, o, hx, hinv, ho⟩ := hi.invocation hp.ok h
  obtain ⟨hlt, hroot⟩ := World.invocation_root hp.ok hx hinv
  obtain ⟨move, data, c, hmade, hposting, hfixed, hrest⟩ := hp.made i.call hlt hroot
  refine ⟨move, data, c, hmade, hposting, World.suits hp.ok hp.kin hinv ho hfixed, ?_⟩
  cases hi with
  | message ho hinv => exact .inr (hp.answers hnode ho hinv hposting hfixed hrest)
  | error hh he ho hinv =>
    obtain ⟨cb, -, rfl⟩ := Option.map_eq_some_iff.mp hinv
    exact .inl he

lemma ok_withAccounts {w : World} (h : w.Ok) (accounts : ℕ → AccountState) : { w with accounts := accounts }.Ok :=
  ⟨h.requests_lt, h.attached_lt, h.attached_nodup, h.attached_le, h.callers, h.accepted, h.unmade, h.child, h.need,
    h.errors⟩

/-- **One move** more, if what it makes is known, and what it tells. -/
lemma Party.Ok.concat (hp : Party.Ok S connection node p₀ moves p) {accounts : ℕ → AccountState} {a : Act} {w : World}
    {posts : ReqId → Option (Bytes × Bytes)} (h : { p.world with accounts := accounts }.step S.env a = some w)
    (hposts : ∀ r, r ≠ p.world.next → posts r = p.posts r)
    (hmade : ∀ c : Call, a = .call c → c.start ≠ .noRequest →
      Made S connection p₀ (moves ++ [move]) c.request (posts p.world.next) p.world.next)
    (hfetched : ∀ start r, a = .checkReceipts start → start ≠ .noRequest → p.world.wantingReceipt = some r →
      ∃ url data, posts p.world.next = some (url, data) ∧
        readPost url data = some (.getReceipt (p.world.heap r).txnHash.toList))
    (htold : ∀ i, { p.world with accounts := accounts }.Invokes S.env a i → Told S connection node p₀ moves i) :
    Party.Ok S connection node p₀ (moves ++ [move]) ⟨w, posts⟩ := by
  have hok := ok_withAccounts hp.ok accounts
  have hstays : ∀ {r}, r < p.world.next → (w.heap r).fixed = (p.world.heap r).fixed := fun hlt => World.step_fixed h hlt
  refine ⟨hok.step h, World.kin_step hok hp.kin h, fun r hr hroot => ?_, fun x r hparent => ?_, fun i hi => ?_⟩
  · rcases Nat.lt_or_ge r p.world.next with hlt | hge
    · rw [Request.fixed_parent (hstays hlt)] at hroot
      dsimp only
      rw [hposts r hlt.ne]
      exact ((hp.made r hlt hroot).concat move).congr (hstays hlt)
    · obtain ⟨rfl, ⟨c, rfl, hs, hheap⟩ | ⟨-, x, -, -, -, hparent⟩⟩ := step_new h hge hr
      · dsimp only at hheap ⊢
        rw [hheap]
        exact hmade c rfl hs
      · rw [hparent] at hroot
        cases hroot
  · have hx := (hok.step h).child_lt hparent
    rcases Nat.lt_or_ge x p.world.next with hlt | hge
    · rw [Request.fixed_parent (hstays hlt)] at hparent
      rw [Request.fixed_txnHash (hstays (hp.ok.child x r hparent).1)]
      dsimp only
      rw [hposts x hlt.ne]
      exact hp.fetched x r hparent
    · obtain ⟨rfl, ⟨c, rfl, -, hheap⟩ | ⟨start, r', ha, hstart, hwants, hparent'⟩⟩ := step_new h hge hx
      · rw [hheap] at hparent
        cases hparent
      · obtain rfl := Option.some.inj (hparent'.symm.trans hparent)
        rw [Request.fixed_txnHash (hstays (hp.ok.requests_lt _ (World.wantingReceipt_eq_some hwants).1))]
        exact hfetched start _ ha hstart hwants
  · obtain ⟨new, hlog, hnew⟩ := step_log h
    dsimp only at hi
    rw [hlog] at hi
    rcases List.mem_append.mp hi with hi | hi
    · exact (htold i (hnew i hi)).concat move
    · exact (hp.told i hi).concat move

lemma Party.Ok.start (receipts : ℕ → TransactionReceipt) (accounts : ℕ → AccountState) :
    Party.Ok S connection node p₀ [] (.start receipts accounts) where
  ok := .start receipts accounts
  kin _ _ h := nomatch h
  made _ hr := absurd hr (Nat.not_lt_zero _)
  fetched _ _ h := nomatch h
  told _ hi := nomatch hi

/-- **One move.** -/
lemma Party.Ok.step (hp : Party.Ok S connection node p₀ moves p) (hrun : run (Party.step S connection) p₀ moves = some p)
    (hslash : 0x2f ∉ connection.host) (hlo : -2 ^ 31 ≤ connection.port) (hhi : connection.port < 2 ^ 31)
    (hsized : ∀ api start, move = .ask api start → api.Sized S) (hnode : FromNode node p move)
    (h : p.step S connection move = some p') : Party.Ok S connection node p₀ (moves ++ [move]) p' := by
  have hmove : MadeBy S connection p₀ (moves ++ [move]) p.world.next move := ⟨moves, [], p, rfl, hrun, rfl⟩
  cases Party.moved h with
  | refused =>
    exact ⟨hp.ok, hp.kin, fun r hr hroot => (hp.made r hr hroot).concat move, hp.fetched,
      fun i hi => (hp.told i hi).concat move⟩
  | called _ accounts c data w hposting hstep =>
    refine hp.concat hstep (fun r hr => p.posted_of_ne c data hr) ?_ (fun _ _ ha => nomatch ha) (fun i hi => nomatch hi)
    rintro c' hc' hs
    obtain rfl := Act.call.inj hc'
    refine ⟨move, data, c, hmove, hposting, rfl, ?_⟩
    cases move with
    | ask api start =>
      have hservice := (ApiCall.call_eq (ApiCall.posting_eq_some.mp hposting).2.1).1
      have hread := ApiCall.posting_read hslash hlo hhi (hsized api start rfl) hposting
      have hask := ((ApiCall.posting_isSome (hsized api start rfl) start).mp (Option.isSome_of_eq_some hposting)).2.2
      obtain ⟨ask, hask⟩ := Option.isSome_iff_exists.mp hask
      refine .inr ⟨_, data, ask, p.posted_next data hs, ?_, hask, ?_⟩
      · rw [hservice, hread, hask]
      · exact (ApiCall.ask_handler hask).trans (congrArg Service.handler hservice.symm)
    | transact c' hc data' =>
      obtain ⟨-, rfl⟩ := Prod.mk.inj (Option.some.inj hposting)
      left
      show c'.service.handler.IsTransaction
      rcases hc with hc | hc <;> rw [hc]
      · exact .inl rfl
      · exact .inr rfl
    | act a => cases hposting
  | acted a w hcall hstep =>
    have hsame : { p.world with accounts := p.world.accounts }.step S.env a = some w := hstep
    refine hp.concat hsame (fun r hr => p.fetched_of_ne a hr) ?_ ?_ fun i hi => hp.told_invokes hnode hstep hi
    · rintro c rfl
      cases hcall
    · rintro start r rfl hstart hwants
      obtain ⟨data, hpost, hread⟩ := Party.fetched_next S connection p hstart hwants
      exact ⟨_, data, hpost, hread hslash hlo hhi⟩

end Run

def receiptAsked : List Move :=
  [.ask (.getReceiptAsync (Vector.replicate 32 9) (some 0) 0) (.sent true), .act .process, .act .enter]

def receiptNode : Node := fun ask m => ask = .getReceipt (List.replicate 32 9) ∧ m = receiptAnswer

end Libaergo.Post
