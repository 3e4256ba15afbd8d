import Afterglow.Server.Startup
import Afterglow.Service.Completion
import Afterglow.Service.Refinement

/-!
# Serving requests

Reference: `handleExecute` of `internal/transport/httptransport/handler.go`, on a server from
`cmd/server/main.go`.

The handlers of concurrent requests only read a body before they call `Judge` and turn its result into a
response afterwards, so a run of the server is a run of `judgeCalls` with other results. Since a server that
starts is ready, its runs complete; and since a handler detaches the context of its request, a request is
never given up while it waits. Every response is then the one that its body comes to by itself
(`server_serves`).

The decoding of JSON is a parameter, `JsonDecoder`.
-/

namespace Afterglow.Startup

open Concurrency Engine Execution Service

/-! ## Reading a request -/

/-- A body as `http.MaxBytesReader` hands it out: the bytes within the limit, and whether an error is behind
them instead of the end. -/
structure Body where
  bytes : Bytes
  tooLarge : Bool

/-- `http.MaxBytesReader`. -/
def maxBytesReader (limit : ℕ) (body : Bytes) : Body := ⟨body.take limit, limit < body.length⟩

def maxRequestBodyBytes : ℕ := 256 <<< 20

/-- `json.Decoder` with unknown fields disallowed. Nothing it reads changes what is behind the limit. -/
structure JsonDecoder where
  /-- `Decode` of a request, and what it leaves. -/
  decode : Body → Except Err (JudgeRequest × Body)
  /-- Another `Decode` returns `io.EOF`. -/
  atEOF : Body → Bool
  decode_tooLarge : ∀ body req rest, decode body = .ok (req, rest) → rest.tooLarge = body.tooLarge
  atEOF_tooLarge : ∀ body, atEOF body = true → body.tooLarge = false

variable (d : JsonDecoder)

/-- The first half of `handleExecute`; an error is the text of its details. -/
def readRequest (body : Bytes) : Except String JudgeRequest :=
  match d.decode (maxBytesReader maxRequestBodyBytes body) with
  | .error e => .error e.message
  | .ok (req, rest) =>
    if d.atEOF rest then .ok req else .error "request body must contain exactly one JSON object"

/-- A body that is too large is refused, wherever its first value ends. -/
theorem readRequest_tooLarge {body : Bytes} (h : maxRequestBodyBytes < body.length) :
    ∃ details, readRequest d body = .error details := by
  unfold readRequest
  split
  · exact ⟨_, rfl⟩
  · next req rest hdecode =>
      have hlarge : rest.tooLarge = true := by
        rw [d.decode_tooLarge _ _ _ hdecode]
        exact decide_eq_true h
      rw [if_neg]
      · exact ⟨_, rfl⟩
      · intro heof
        exact absurd (hlarge.symm.trans (d.atEOF_tooLarge rest heof)) (by simp)

/-! ## Responses -/

/-- `errorResponse`. -/
structure ErrorResponse where
  error : String
  code : String
  details : String
deriving Repr, DecidableEq

/-- A status code and a body in JSON. -/
structure Response where
  status : ℕ
  body : Except ErrorResponse JudgeResult
deriving DecidableEq

def writeInvalidRequest (details : String) : Response :=
  ⟨400, .error { error := "Bad Request", code := "INVALID_REQUEST", details := details }⟩

/-- The second half of `handleExecute`. -/
def respond : JudgeResult × Option Err → Response
  | (_, some e) => writeInvalidRequest e.message
  | (result, none) => ⟨200, .ok result⟩

variable (g : JudgeEngine)

/-- `handleExecute` for a request with context `ctx`. -/
def handleExecute (ctx : Ctx) (body : Bytes) : EProg Response :=
  match readRequest d body with
  | .error details => return writeInvalidRequest details
  | .ok req => do
    let res ← judge g (.withoutCancel ctx) req
    return respond res

/-- What the goroutines of a server return. -/
abbrev ServerAns : Tid → Type
  | .judge _ => Response
  | .case _ _ => Unit

/-- The goroutines of a server to which `bodies` are sent. -/
def serverCalls (bodies : ℕ → Bytes) : (i : Tid) → EProg (ServerAns i)
  | .judge j => handleExecute d g (.request j) (bodies j)
  | .case _ _ => caseThread g

/-- The state in which a server begins to listen. -/
def Server.listening (server : Server) (bodies : ℕ → Bytes) : Config Op Op.Ans Tid State ServerAns :=
  .start (State.new server.judgeMax server.execMax server.cpus.buffer) (serverCalls d server.engine bodies)

/-! ## Handlers as calls of `Judge` -/

/-- A request that `Judge` refuses at once. -/
def refusedRequest : JudgeRequest where
  sourceCode := ""
  checker := ""
  checkerSourceCode := ""
  language := .unknown
  timeLimit := 0
  memoryLimit := 0
  testCases := []

theorem refusedRequest_invalid : validateJudgeRequest refusedRequest ≠ none := by decide

/-- The request that is judged for what was read. -/
def judged : Except String JudgeRequest → JudgeRequest
  | .ok req => req
  | .error _ => refusedRequest

/-- The response to what was read, given the result of judging it. -/
def answered : Except String JudgeRequest → JudgeResult × Option Err → Response
  | .ok _, res => respond res
  | .error details, _ => writeInvalidRequest details

/-- The calls of `Judge` that the handlers make; a body that cannot be read stands for a refused request. -/
def judgeRequests (bodies : ℕ → Bytes) (j : ℕ) : Ctx × JudgeRequest :=
  (.withoutCancel (.request j), judged (readRequest d (bodies j)))

/-- What the handlers make of the results. -/
def responses (bodies : ℕ → Bytes) : (i : Tid) → JudgeAns i → ServerAns i
  | .judge j, res => answered (readRequest d (bodies j)) res
  | .case _ _, a => a

theorem handleExecute_eq (bodies : ℕ → Bytes) (j : ℕ) :
    handleExecute d g (.request j) (bodies j) =
      judge g (judgeRequests d bodies j).1 (judgeRequests d bodies j).2 >>= fun res =>
        .ret (responses d bodies (.judge j) res) := by
  simp only [handleExecute, judgeRequests, responses]
  cases readRequest d (bodies j) with
  | ok req => rfl
  | error details =>
    obtain ⟨e, he⟩ : ∃ e, judge g (.withoutCancel (.request j)) refusedRequest = .ret ({}, some e) :=
      judge_invalid refusedRequest_invalid
    simp only [judged, he]
    rfl

theorem listening_eq (server : Server) (bodies : ℕ → Bytes) :
    server.listening d bodies =
      (Config.start (State.new server.judgeMax server.execMax server.cpus.buffer)
        (judgeCalls server.engine (judgeRequests d bodies))).mapResults (responses d bodies) := by
  have hcalls : serverCalls d server.engine bodies = fun i =>
      judgeCalls server.engine (judgeRequests d bodies) i >>= fun a => .ret (responses d bodies i a) := by
    funext i
    cases i with
    | judge j => exact handleExecute_eq d server.engine bodies j
    | case j n => exact (Prog.bind_ret (caseThread server.engine)).symm
  rw [Server.listening, hcalls]
  rfl

/-! ## The server -/

/-- A context that can be done before its work is. -/
def MayEnd : Ctx → Prop
  | .request _ | .withTimeout _ _ => True
  | .withValue parent | .withCancel parent => MayEnd parent
  | .withoutCancel _ => False

/-- The response to a body by itself. -/
def respondAlone (o : Outside) (body : Bytes) : Option Response :=
  match readRequest d body with
  | .error details => some (writeInvalidRequest details)
  | .ok req => (o.judgeAlone g req).map respond

section Serving

variable {server : Server} {bodies : ℕ → Bytes} {c' : Config Op Op.Ans Tid State JudgeAns}

/-- A server at its end has its calls of `Judge` at theirs. -/
theorem final_of_mapResults {f : (i : Tid) → JudgeAns i → ServerAns i} (h : Final (c'.mapResults f)) :
    Final c' := by
  rintro ⟨i, e, k, r, s, hprog, hact, hcancel⟩
  refine h ⟨i, e, fun r => k r >>= fun a => .ret (f i a), r, s, ?_, hact, hcancel⟩
  show (c'.prog i >>= fun a => .ret (f i a)) = _
  rw [hprog]
  rfl

/-- A body that cannot be read is answered without an operation. -/
theorem unread_answered {c : Config Op Op.Ans Tid State ServerAns}
    (h : Reachable semantics (server.listening d bodies) c) {j : ℕ} {details : String}
    (hread : readRequest d (bodies j) = .error details) :
    own (.judge j) c.trace = [] ∧ c.prog (.judge j) = .ret (writeInvalidRequest details) := by
  have hafter : (handleExecute d server.engine (.request j) (bodies j)).After (own (.judge j) c.trace)
      (c.prog (.judge j)) := h.own_after (.judge j)
  rw [handleExecute, hread] at hafter
  exact hafter.of_ret

end Serving

/-- A server that starts serves. Whatever the environment and the host are and whatever finitely many clients
send, there is no infinite run, and at the end of a run every request has its response and all slots, permits
and CPUs are free. Bodies above the limit are refused without anything being done for them. Where the
executor and the resources answer equal requests equally, the checkers in use do not collide, and waits are
given up only on contexts that can end, every response is the one to its body alone. -/
theorem server_serves {host : Host} {server : Server} (hstart : start host = some (.ok server)) (d : JsonDecoder)
    {bodies : ℕ → Bytes} {n : ℕ} (hlast : ∀ j, n ≤ j → ∃ details, readRequest d (bodies j) = .error details) :
    (¬ ∃ run : ℕ → Config Op Op.Ans Tid State ServerAns, run 0 = server.listening d bodies ∧
      ∀ t, Step semantics (run t) (run (t + 1))) ∧
    ∀ c, Reachable semantics (server.listening d bodies) c →
      (Final c → (∀ j, ∃ response, c.prog (.judge j) = .ret response) ∧
        Quiescent server.cpus.buffer c.shared) ∧
      (∀ j, maxRequestBodyBytes < (bodies j).length → own (.judge j) c.trace = [] ∧
        ∃ details, c.prog (.judge j) = .ret (writeInvalidRequest details)) ∧
      ∀ o : Outside, o.Rules c.trace →
        (∀ source source', Asked c.trace source → Asked c.trace source' →
          server.engine.sha256 source = server.engine.sha256 source' → source = source') →
        (∀ i ctx e, Did c.trace i (.judgeAcquire ctx) (some e) → MayEnd ctx) →
        ∀ j response, c.prog (.judge j) = .ret response →
          respondAlone d server.engine o (bodies j) = some response := by
  obtain ⟨res, hres, hready⟩ := start_ready host
  obtain ⟨hexecutor, hjudge, hexec, hne, hnodup⟩ := hready server (Option.some.inj (hres.symm.trans hstart))
  have hx : server.engine.executor.All Op.OfExecutor := by
    rw [hexecutor]
    exact containerExecutor_all
  -- a body that cannot be read is judged as a request that is refused at once
  have hlast' : ∀ j, n ≤ j → validateJudgeRequest (judgeRequests d bodies j).2 ≠ none := by
    intro j hj
    obtain ⟨details, hdetails⟩ := hlast j hj
    rw [judgeRequests, hdetails]
    exact refusedRequest_invalid
  refine ⟨?_, ?_⟩
  -- the handlers wrap the calls of `Judge`, so their steps are steps of those
  · refine no_infinite_run (goroutines n) ?_
    intro c i e k r s h hprog hact
    rw [listening_eq] at h
    obtain ⟨c', hc', rfl⟩ := h.of_mapResults
    obtain ⟨k', hprog', -⟩ := Prog.bind_ret_eq_op hprog
    exact moves_mem_goroutines hlast' hc' hx hprog' hact
  · intro c h
    have hserved := h
    rw [listening_eq] at hserved
    obtain ⟨c', hc', rfl⟩ := hserved.of_mapResults
    have live := live_reachable hexecutor hnodup hc'
    refine ⟨?_, ?_, ?_⟩
    · intro hend
      have hfinal := final_of_mapResults hend
      refine ⟨?_, live.final_quiescent hne hexec hfinal hnodup⟩
      intro j
      obtain ⟨a, ha⟩ := live.final_returned hne hexec hfinal hjudge hnodup j
      refine ⟨responses d bodies (.judge j) a, ?_⟩
      show (c'.prog (.judge j) >>= fun a => .ret (responses d bodies (.judge j) a)) = _
      rw [ha]
      rfl
    · intro j hlarge
      obtain ⟨details, hdetails⟩ := readRequest_tooLarge d hlarge
      obtain ⟨hown, hprog⟩ := unread_answered d h hdetails
      exact ⟨hown, details, hprog⟩
    · intro o hrules hcoll hctx j response hret
      obtain ⟨a, ha, rfl⟩ := Prog.bind_ret_eq_ret hret
      simp only [respondAlone, responses]
      cases hread : readRequest d (bodies j) with
      | error details => rfl
      | ok req =>
        have hreq : judgeRequests d bodies j = (.withoutCancel (.request j), req) := by
          rw [judgeRequests, hread]
          rfl
        rcases judge_runs_alone hx hc' hrules hcoll (hc'.own_runs ha) with halone | ⟨⟨e, hdid⟩, -⟩
        · rw [hreq] at halone
          simp only [halone]
          rfl
        · rw [hreq] at hdid
          exact absurd (hctx _ _ _ hdid) id

/-- A host with two CPUs and nothing set in the environment. -/
def plainHost : Host where
  lookupEnv _ := none
  quote _ := ""
  affinity := .ok [true, true]
  cgroupUnified := true
  connect _ := none
  version _ := none
  bundledSub := none
  readBundled _ := .ok []
  statBundled _ := .ok true
  stat _ := .ok true
  sha256 source := source
  isLetter := Char.isAlpha
  isDigit := Char.isDigit

/-- Every body that is not empty is the small request. -/
def smallDecoder : JsonDecoder where
  decode body := if body.bytes = [] then .error (.text "EOF") else .ok ((smallRequests 0).2, ⟨[], body.tooLarge⟩)
  atEOF body := body.bytes = [] ∧ body.tooLarge = false
  decode_tooLarge body req rest h := by
    split at h
    · cases h
    · cases h
      rfl
  atEOF_tooLarge body h := (of_decide_eq_true h).2

/-- One client sends the small request. -/
def oneBody (j : ℕ) : Bytes := if j = 0 then [123, 125] else []

theorem server_serves_one_body : ∃ server, start plainHost = some (.ok server) ∧
    server.judgeMax = 4 ∧ server.execMax = 8 ∧ server.cpus.buffer = [0, 1] ∧
    (¬ ∃ run : ℕ → Config Op Op.Ans Tid State ServerAns, run 0 = server.listening smallDecoder oneBody ∧
      ∀ t, Step semantics (run t) (run (t + 1))) ∧
    ∀ c, Reachable semantics (server.listening smallDecoder oneBody) c → Final c →
      (∃ response, c.prog (.judge 0) = .ret response) ∧ Quiescent [0, 1] c.shared := by
  have hstart : (start plainHost).bind (fun res => res.toOption.map fun server =>
      (server.judgeMax, server.execMax, server.cpus.buffer)) = some (4, 8, [0, 1]) := by decide +kernel
  obtain ⟨res, hres, hserver⟩ := Option.bind_eq_some_iff.mp hstart
  obtain ⟨server, hok, heq⟩ := Option.map_eq_some_iff.mp hserver
  simp only [Prod.mk.injEq] at heq
  obtain ⟨hjudges, hpermits, hcpus⟩ := heq
  have hstarted : start plainHost = some (.ok server) := by
    rw [hres]
    cases res with
    | error e => cases hok
    | ok server' =>
      obtain rfl := Option.some.inj hok
      rfl
  have hlast : ∀ j, 1 ≤ j → ∃ details, readRequest smallDecoder (oneBody j) = .error details := by
    intro j hj
    refine ⟨"EOF", ?_⟩
    rw [oneBody, if_neg (by omega)]
    rfl
  obtain ⟨hfinite, hruns⟩ := server_serves hstarted smallDecoder hlast
  refine ⟨server, hstarted, hjudges, hpermits, hcpus, hfinite, ?_⟩
  intro c hc hend
  obtain ⟨hreturned, hquiet⟩ := (hruns c hc).1 hend
  rw [hcpus] at hquiet
  exact ⟨hreturned 0, hquiet⟩

end Afterglow.Startup
