import Octoproxy.Proxy
import Octoproxy.Selection

namespace Octoproxy
open TaskPool Transition
set_option autoImplicit true

structure BackendMetric (K : Type) where
  backendName : String
  metric : MetricData K

inductive HandlerPc (K : Type) where
  | receiving
  | listing (items : List (BackendMetric K))
  | acting (req : MetricApiReq) (task : Nat)
  | sending (res : MetricApiResp (BackendMetric K))
  | ended

/-- The monitor and the proxy, with the messages on their way between them. `taken` and `served`
are the actions that the user has got taken, and those that the proxy has set out to do. -/
structure Session (K : Type) where
  app : App (BackendMetric K)
  requests : List MetricApiReq
  handler : HandlerPc K
  answers : List (MetricApiResp (BackendMetric K))
  proxy : Proxy K
  taken : List MetricApiReq
  served : List MetricApiReq

/-- `event`, `select`, `read` and `lose` are steps of the monitor, `serve`, `send` and `hangUp`
of the handler. A `proxy` step may be one of the task that the handler waits for. -/
inductive SessionAct (C : Type) where
  | event (ev : TuiEvent)
  | select (ticker : Bool) (written : Except String Unit)
  | read
  | lose (close : Bool)
  | serve (env : BuildEnv)
  | send (sent : Bool)
  | hangUp
  | proxy (a : ProxyAct C)

/-- The result of an action whose task has finished with its next step. -/
def ProxyTask.result : ProxyTask → Except String Unit
  | .onBackend _ (.switchBackendProtocol _ .switching) => .error buildFailed
  | _ => .ok ()

def Proxy.finished (s : Proxy K) (i : Nat) : Bool :=
  match s.tasks[i]? with
  | some (.onBackend _ .finished) => true
  | _ => false

namespace Session

def start (backends : Nat → Backend K) (balancer : Balancer) : Session K where
  app := App.new .new
  requests := []
  handler := .receiving
  answers := []
  proxy := .start backends balancer
  taken := []
  served := []

def event (s : Session K) (ev : TuiEvent) : Option (Session K) :=
  (s.app.event ev).map fun app => { s with
    app := app
    taken := s.taken ++ app.fetcher.queue.drop s.app.fetcher.queue.length }

def select (s : Session K) (ticker : Bool) (written : Except String Unit) : Option (Session K) :=
  (s.app.step (.select ticker written)).map fun app => { s with
    app := app
    requests := s.requests ++ app.fetcher.awaiting.toList }

def read (s : Session K) : Option (Session K) :=
  match s.answers with
  | [] => none
  | res :: answers => (s.app.step (.receive (.binary (.ok res)))).map fun app =>
      { s with app := app, answers := answers }

def lose (s : Session K) (close : Bool) : Option (Session K) :=
  (s.app.step (.receive (if close then .close else .failed))).map fun app => { s with app := app }

/-- `backend_metric_switcher` up to the first point where it waits. -/
def begin (cfg : Config) (s : Session K) (env : BuildEnv) (req : MetricApiReq) : Session K :=
  match req.task env with
  | none => { s with handler := .listing [] }
  | some (id, r) =>
    if id < cfg.backends.length then { s with
      handler := .acting req s.proxy.tasks.length
      proxy := { s.proxy with tasks := s.proxy.tasks ++ [.onBackend id r.task] }
      served := s.served ++ [req] }
    else { s with
      handler := .sending (backendMetricSwitcher [] (.error "no suck backends") req)
      served := s.served ++ [req] }

/-- `get_all_backends` reads one metric after the other. -/
def list (cfg : Config) (s : Session K) (items : List (BackendMetric K)) : Session K :=
  match cfg.backends[items.length]? with
  | some b => { s with
      handler := .listing (items ++ [⟨b.backendName, (s.proxy.backends b.backend).metric⟩]) }
  | none => { s with handler := .sending (backendMetricSwitcher items (.ok ()) .allBackends) }

def serve (cfg : Config) (s : Session K) (env : BuildEnv) : Option (Session K) :=
  match s.handler with
  | .receiving => match s.requests with
    | [] => none
    | req :: requests => some ({ s with requests := requests }.begin cfg env req)
  | .listing items => some (s.list cfg items)
  | _ => none

/-- The handler panics if its answer cannot be sent. -/
def send (s : Session K) (sent : Bool) : Option (Session K) :=
  match s.handler with
  | .sending res =>
    if sent then some { s with handler := .receiving, answers := s.answers ++ [res] }
    else some { s with handler := .ended }
  | _ => none

def hangUp (s : Session K) : Option (Session K) :=
  match s.handler with
  | .receiving => some { s with handler := .ended }
  | _ => none

/-- The handler answers once its task has finished. -/
def notice (s : Session K) (p : Proxy K) : HandlerPc K :=
  match s.handler with
  | .acting req i =>
    if p.finished i then
      .sending (backendMetricSwitcher []
        ((s.proxy.tasks[i]?.map ProxyTask.result).getD (.ok ())) req)
    else .acting req i
  | handler => handler

def step [LE C] [DecidableLE C] (cfg : Config) (forever : Option Nat) (s : Session K) :
    SessionAct C → Option (Session K)
  | .event ev => s.event ev
  | .select ticker written => s.select ticker written
  | .read => s.read
  | .lose close => s.lose close
  | .serve env => s.serve cfg env
  | .send sent => s.send sent
  | .hangUp => s.hangUp
  | .proxy a => (s.proxy.step cfg forever a).map fun p =>
      { s with handler := s.notice p, proxy := p }

end Session

def HandlerPc.load : HandlerPc K → Nat
  | .receiving => 0
  | .ended => 0
  | _ => 1

/-- One request is under way at a time, every answer belongs to the request that waits for it,
the rows are the backends in their order, and the proxy has set out to do what the user has got
taken, each action once and in order. -/
structure Session.InStep (cfg : Config) (s : Session K) : Prop where
  single : s.requests.length + s.handler.load + s.answers.length ≤ 1
  answered : s.app.fetcher.running = true → ∀ res ∈ s.answers,
    ∃ req, s.app.fetcher.awaiting = some req ∧ req.AnsweredBy res
  rows : s.app.fetcher.backends = [] ∨
    s.app.fetcher.backends.map BackendMetric.backendName =
      cfg.backends.map ConfigBackend.backendName
  once : s.served <+: s.taken
  whole : s.app.fetcher.running = true →
    s.taken = s.served ++ (s.requests.filter MetricApiReq.isAction ++ s.app.fetcher.queue)

def MetricApiReq.target : MetricApiReq → Option Nat
  | .switchBackendStatus id => some id
  | .switchBackendProtocol id => some id
  | .resetBackend id => some id
  | .allBackends => none

theorem MetricApiReq.isAction_eq (req : MetricApiReq) : req.isAction = req.target.isSome := by
  cases req <;> rfl

theorem MetricApiReq.task_fst (req : MetricApiReq) (env : BuildEnv) :
    (req.task env).map Prod.fst = req.target := by
  cases req <;> rfl

/-- The part of the fetcher that an event of the user does not touch, and what it adds to the
queue: an action on the selected row, if the loop runs. -/
structure Fetcher.Queues (f f' : Fetcher β) (selected : Option Nat) (new : List MetricApiReq) :
    Prop where
  queue : f'.queue = f.queue ++ new
  awaiting : f'.awaiting = f.awaiting
  running : f'.running = f.running
  backends : f'.backends = f.backends
  live : new ≠ [] → f.running = true
  targets : ∀ req ∈ new, req.isAction = true ∧ req.target = selected

theorem Fetcher.Queues.refl (f : Fetcher β) (selected : Option Nat) : Queues f f selected [] where
  queue := (List.append_nil _).symm
  awaiting := rfl
  running := rfl
  backends := rfl
  live := fun h => absurd rfl h
  targets := fun _ h => absurd h List.not_mem_nil

theorem Fetcher.request_queues {f f' : Fetcher β} (h : f.request msg i = some f')
    (hm : (msg i).isAction = true) (ht : (msg i).target = some i) :
    ∃ new, Queues f f' (some i) new := by
  obtain ⟨_, rfl⟩ | ⟨_, hr, rfl⟩ := Fetcher.request_cases h
  · exact ⟨[], .refl f' (some i)⟩
  · refine ⟨[msg i], rfl, rfl, rfl, rfl, fun _ => hr, ?_⟩
    intro req hreq
    rw [List.mem_singleton.1 hreq]
    exact ⟨hm, ht⟩

theorem App.request_queues {s s' : App β} (send : Fetcher β → Nat → Option (Fetcher β))
    (hsend : ∀ {f f' : Fetcher β} {i : Nat}, send f i = some f' →
      ∃ new, Fetcher.Queues f f' (some i) new)
    (h : s.request send = some s') :
    ∃ new, Fetcher.Queues s.fetcher s'.fetcher s.backendsState new := by
  unfold App.request at h
  split at h
  · rename_i i hi
    obtain ⟨f, hf, rfl⟩ := Option.map_eq_some_iff.1 h
    rw [hi]
    exact hsend hf
  · cases h
    exact ⟨[], .refl _ _⟩

theorem App.event_queues {s s' : App β} (h : s.event ev = some s') :
    ∃ new, Fetcher.Queues s.fetcher s'.fetcher s.backendsState new := by
  unfold App.event at h
  split at h
  · cases h
    exact ⟨[], .refl _ _⟩
  · cases h
    exact ⟨[], .refl _ _⟩
  · cases h
    exact ⟨[], .refl _ _⟩
  · exact App.request_queues _ (fun h => Fetcher.request_queues h rfl rfl) h
  · exact App.request_queues _ (fun h => Fetcher.request_queues h rfl rfl) h
  · exact App.request_queues _ (fun h => Fetcher.request_queues h rfl rfl) h
  · cases h
    exact ⟨[], .refl _ _⟩

theorem Fetcher.selectRequest_error {f f' : Fetcher β}
    (h : f.selectRequest ticker (.error e) = some f') :
    f'.running = false ∧ f'.awaiting = none ∧ f'.backends = f.backends := by
  have hb := Fetcher.selectRequest_backends h
  simp only [Fetcher.selectRequest, Fetcher.writeMessage] at h
  split at h
  · rename_i hc
    have ha := Option.isNone_iff_eq_none.1 (Bool.and_eq_true_iff.1 hc).2
    split at h
    · cases h
      exact ⟨rfl, ha, hb⟩
    · split at h
      · cases h
      · cases h
        exact ⟨rfl, ha, hb⟩
  · cases h

theorem Fetcher.selectRequest_running {f f' : Fetcher β}
    (h : f.selectRequest ticker written = some f') : f.running = true := by
  unfold Fetcher.selectRequest at h
  split at h
  · rename_i hc
    exact (Bool.and_eq_true_iff.1 hc).1
  · cases h

theorem Fetcher.receive_cases {f f' : Fetcher β} (h : f.receive (.binary (.ok res)) = some f') :
    f.running = true ∧ f'.running = true ∧ f'.awaiting = none ∧ f'.queue = f.queue := by
  simp only [Fetcher.receive] at h
  split at h
  · rename_i hc
    have hr := (Bool.and_eq_true_iff.1 hc).1
    cases h
    refine ⟨hr, ?_, ?_, ?_⟩
    · rw [Fetcher.answer_running]
      exact hr
    · cases res <;> rfl
    · cases res <;> rfl
  · cases h

theorem Fetcher.receive_lost {f f' : Fetcher β} {close : Bool}
    (h : f.receive (if close then .close else .failed) = some f') :
    f'.running = false ∧ f'.backends = f.backends := by
  simp only [Fetcher.receive] at h
  split at h
  · cases close <;> cases h <;> exact ⟨rfl, rfl⟩
  · cases h

def MetricApiResp.Lists (names : List String) : MetricApiResp (BackendMetric K) → Prop
  | .allBackends items => items.map BackendMetric.backendName = names
  | _ => True

/-- The handler is at work on the request, or has given it up. -/
def HandlerPc.Serves (names : List String) (req : MetricApiReq) : HandlerPc K → Prop
  | .receiving => False
  | .listing items => req = .allBackends ∧ items.map BackendMetric.backendName <+: names
  | .acting req' _ => req' = req ∧ req.isAction = true
  | .sending res => req.AnsweredBy res ∧ res.Lists names
  | .ended => True

/-- Where the request under way is. -/
inductive Exchange (names : List String) (requests : List MetricApiReq) (handler : HandlerPc K)
    (answers : List (MetricApiResp (BackendMetric K))) : Option MetricApiReq → Prop where
  | idle : requests = [] → handler.load = 0 → answers = [] →
      Exchange names requests handler answers none
  | sent : requests = [req] → handler.load = 0 → answers = [] →
      Exchange names requests handler answers (some req)
  | served : requests = [] → handler.Serves names req → answers = [] →
      Exchange names requests handler answers (some req)
  | answered : requests = [] → handler.load = 0 → answers = [res] → req.AnsweredBy res →
      res.Lists names → Exchange names requests handler answers (some req)

def Config.names (cfg : Config) : List String := cfg.backends.map ConfigBackend.backendName

structure Session.Paced (cfg : Config) (s : Session K) : Prop where
  exchange : ∃ r, Exchange cfg.names s.requests s.handler s.answers r ∧
    (s.app.fetcher.running = true → r = s.app.fetcher.awaiting)
  rows : s.app.fetcher.backends = [] ∨
    s.app.fetcher.backends.map BackendMetric.backendName = cfg.names
  order : ∃ left, s.taken = s.served ++ (s.requests.filter MetricApiReq.isAction ++ left) ∧
    (s.app.fetcher.running = true → left = s.app.fetcher.queue)
  queued : s.app.fetcher.running = true → ∀ req ∈ s.app.fetcher.queue, req.isAction = true

section
variable {cfg : Config} {s s' : Session K}

theorem Session.start_paced (cfg : Config) (backends : Nat → Backend K) (balancer : Balancer) :
    (Session.start backends balancer).Paced cfg where
  exchange := ⟨none, .idle rfl rfl rfl, fun _ => rfl⟩
  rows := .inl rfl
  order := ⟨[], rfl, fun _ => rfl⟩
  queued := fun _ _ h => absurd h List.not_mem_nil

theorem Session.Paced.inStep (h : s.Paced cfg) : s.InStep cfg := by
  obtain ⟨r, hx, hr⟩ := h.exchange
  obtain ⟨left, ho, hl⟩ := h.order
  refine ⟨?_, ?_, h.rows, ⟨_, ho.symm⟩, ?_⟩
  · have hload : s.handler.load ≤ 1 := by
      unfold HandlerPc.load
      split <;> omega
    cases hx with
    | idle hq hh ha => rw [hq, hh, ha]; exact Nat.zero_le 1
    | sent hq hh ha => rw [hq, hh, ha]; exact Nat.le_refl 1
    | served hq _ ha =>
      rw [hq, ha, List.length_nil, List.length_nil]
      omega
    | answered hq hh ha _ _ => rw [hq, hh, ha]; exact Nat.le_refl 1
  · intro hrun res hres
    rw [← hr hrun]
    cases hx with
    | answered hq hh ha hans _ =>
      rw [ha] at hres
      rw [List.mem_singleton.1 hres]
      exact ⟨_, rfl, hans⟩
    | idle _ _ ha => rw [ha] at hres; cases hres
    | sent _ _ ha => rw [ha] at hres; cases hres
    | served _ _ ha => rw [ha] at hres; cases hres
  · intro hrun
    rw [ho, hl hrun]

theorem Session.Paced.event (h : s.Paced cfg) (hs : s.event ev = some s') : s'.Paced cfg := by
  obtain ⟨app, ha, rfl⟩ := Option.map_eq_some_iff.1 hs
  obtain ⟨new, hq⟩ := App.event_queues ha
  obtain ⟨r, hx, hr⟩ := h.exchange
  obtain ⟨left, ho, hl⟩ := h.order
  have hnew : app.fetcher.queue.drop s.app.fetcher.queue.length = new := by
    rw [hq.queue, List.drop_left]
  refine ⟨⟨r, hx, ?_⟩, ?_, ⟨left ++ new, ?_, ?_⟩, ?_⟩
  · dsimp only
    rw [hq.running, hq.awaiting]
    exact hr
  · dsimp only
    rw [hq.backends]
    exact h.rows
  · dsimp only
    rw [hnew, ho, List.append_assoc, List.append_assoc]
  · dsimp only
    rw [hq.running, hq.queue]
    intro hrun
    rw [hl hrun]
  · dsimp only
    rw [hq.running, hq.queue]
    intro hrun req hreq
    obtain hreq | hreq := List.mem_append.1 hreq
    · exact h.queued hrun req hreq
    · exact (hq.targets req hreq).1

theorem Session.Paced.select (h : s.Paced cfg) (hs : s.select ticker written = some s') :
    s'.Paced cfg := by
  obtain ⟨app, ha, rfl⟩ := Option.map_eq_some_iff.1 hs
  obtain ⟨f, hf, rfl⟩ := Option.map_eq_some_iff.1 ha
  obtain ⟨r, hx, hr⟩ := h.exchange
  obtain ⟨left, ho, hl⟩ := h.order
  cases written with
  | error e =>
    obtain ⟨hrun, haw, hb⟩ := Fetcher.selectRequest_error hf
    have hne : ¬ f.running = true := by
      rw [hrun]
      exact nofun
    refine ⟨⟨r, ?_, fun h => absurd h hne⟩, ?_, ⟨left, ?_, fun h => absurd h hne⟩,
      fun h => absurd h hne⟩
    · dsimp only
      rw [haw, Option.toList_none, List.append_nil]
      exact hx
    · dsimp only
      rw [hb]
      exact h.rows
    · dsimp only
      rw [haw, Option.toList_none, List.append_nil]
      exact ho
  | ok _ =>
    have hrun := Fetcher.selectRequest_running hf
    obtain ⟨haw, hcases⟩ := Fetcher.selectRequest_cases hf
    rw [hr hrun, haw] at hx
    cases hx with
    | idle hreq hh hans =>
      rw [hreq, hl hrun] at ho
      obtain rfl | ⟨req, queue, hq, rfl⟩ := hcases
      · refine ⟨⟨_, .sent ?_ hh hans, fun _ => rfl⟩, h.rows, ⟨_, ?_, fun _ => rfl⟩, h.queued⟩
        · dsimp only
          rw [hreq]
          rfl
        · dsimp only
          rw [hreq]
          exact ho
      · have hqueued := h.queued hrun
        rw [hq] at hqueued ho
        obtain ⟨hact, hrest⟩ := List.forall_mem_cons.1 hqueued
        refine ⟨⟨_, .sent ?_ hh hans, fun _ => rfl⟩, h.rows, ⟨_, ?_, fun _ => rfl⟩,
          fun _ => hrest⟩
        · dsimp only
          rw [hreq]
          rfl
        · dsimp only
          rw [hreq, ho, Option.toList_some, List.nil_append, List.filter_cons_of_pos hact]
          rfl

theorem Session.Paced.read (h : s.Paced cfg) (hs : s.read = some s') : s'.Paced cfg := by
  obtain ⟨r, hx, hr⟩ := h.exchange
  obtain ⟨left, ho, hl⟩ := h.order
  unfold Session.read at hs
  split at hs
  · cases hs
  · rename_i res answers hans
    obtain ⟨app, ha, rfl⟩ := Option.map_eq_some_iff.1 hs
    obtain ⟨f, hf, rfl⟩ := Option.map_eq_some_iff.1 ha
    obtain ⟨hrun, hrun', haw, hq⟩ := Fetcher.receive_cases hf
    have hb := Fetcher.receive_backends hf
    cases hx with
    | idle _ _ hnil => rw [hans] at hnil; cases hnil
    | sent _ _ hnil => rw [hans] at hnil; cases hnil
    | served _ _ hnil => rw [hans] at hnil; cases hnil
    | answered hreq hh hres _ hlist =>
      rw [hans] at hres
      cases hres
      refine ⟨⟨none, .idle hreq hh rfl, fun _ => haw.symm⟩, ?_, ⟨left, ho, ?_⟩, ?_⟩
      · dsimp only
        rw [hb]
        cases res with
        | allBackends items => exact .inr hlist
        | _ => exact h.rows
      · dsimp only
        rw [hq]
        exact fun _ => hl hrun
      · dsimp only
        rw [hq]
        exact fun _ => h.queued hrun

theorem Session.Paced.lose (h : s.Paced cfg) (hs : s.lose close = some s') : s'.Paced cfg := by
  obtain ⟨app, ha, rfl⟩ := Option.map_eq_some_iff.1 hs
  obtain ⟨f, hf, rfl⟩ := Option.map_eq_some_iff.1 ha
  obtain ⟨hrun, hb⟩ := Fetcher.receive_lost hf
  obtain ⟨r, hx, _⟩ := h.exchange
  obtain ⟨left, ho, _⟩ := h.order
  have hne : ¬ f.running = true := by
    rw [hrun]
    exact nofun
  refine ⟨⟨r, hx, fun h => absurd h hne⟩, ?_, ⟨left, ho, fun h => absurd h hne⟩,
    fun h => absurd h hne⟩
  dsimp only
  rw [hb]
  exact h.rows

theorem backendMetricSwitcher_lists (names : List String) {req : MetricApiReq}
    (h : req.isAction = true) (result : Except String Unit) :
    (backendMetricSwitcher ([] : List (BackendMetric K)) result req).Lists names := by
  cases req with
  | allBackends => cases h
  | _ => cases result <;> trivial

theorem Session.Paced.begin (h : s.Paced cfg) (hq : s.requests = req :: rest)
    (env : BuildEnv) : (Session.begin cfg { s with requests := rest } env req).Paced cfg := by
  obtain ⟨r, hx, hr⟩ := h.exchange
  obtain ⟨left, ho, hl⟩ := h.order
  cases hx with
  | idle hnil _ _ => rw [hq] at hnil; cases hnil
  | served hnil _ _ => rw [hq] at hnil; cases hnil
  | answered hnil _ _ _ _ => rw [hq] at hnil; cases hnil
  | sent hone _ ha =>
    rw [hq] at hone
    cases hone
    rw [hq] at ho
    cases htask : req.task env with
    | none =>
      have hreq : req = .allBackends := by
        cases req <;> first | rfl | cases htask
      subst hreq
      rw [Session.begin, htask]
      exact ⟨⟨_, .served rfl ⟨rfl, List.nil_prefix⟩ ha, hr⟩, h.rows, ⟨left, ho, hl⟩, h.queued⟩
    | some t =>
      obtain ⟨id, r⟩ := t
      have hact : req.isAction = true := by
        cases req <;> first | rfl | cases htask
      have hserved : s.taken =
          (s.served ++ [req]) ++ (List.filter MetricApiReq.isAction [] ++ left) := by
        rw [ho, List.filter_cons_of_pos hact, List.append_assoc]
        rfl
      rw [Session.begin, htask]
      dsimp only
      split
      · exact ⟨⟨_, .served rfl ⟨rfl, hact⟩ ha, hr⟩, h.rows, ⟨left, hserved, hl⟩, h.queued⟩
      · refine ⟨⟨_, .served rfl ⟨?_, ?_⟩ ha, hr⟩, h.rows, ⟨left, hserved, hl⟩, h.queued⟩
        · exact backendMetricSwitcher_answers _ _ req
        · exact backendMetricSwitcher_lists cfg.names hact _

theorem Session.Paced.work (h : s.Paced cfg) (hload : s.handler.load ≠ 0)
    (hserves : ∀ req, s.handler.Serves cfg.names req → pc.Serves cfg.names req) :
    Session.Paced cfg { s with handler := pc } := by
  obtain ⟨r, hx, hr⟩ := h.exchange
  refine ⟨⟨r, ?_, hr⟩, h.rows, h.order, h.queued⟩
  cases hx with
  | idle _ hh _ => exact absurd hh hload
  | sent _ hh _ => exact absurd hh hload
  | answered _ hh _ _ _ => exact absurd hh hload
  | served hq hh ha => exact .served hq (hserves _ hh) ha

theorem Session.Paced.list (h : s.Paced cfg) (hh : s.handler = .listing items) :
    (s.list cfg items).Paced cfg := by
  have hload : s.handler.load ≠ 0 := by
    rw [hh]
    exact nofun
  unfold Session.list
  split
  · rename_i b hb
    apply h.work hload
    rw [hh]
    rintro req ⟨hreq, hp⟩
    refine ⟨hreq, ?_⟩
    -- the next name is the one that the list goes on with
    have hn : cfg.names[(items.map BackendMetric.backendName).length]? = some b.backendName := by
      rw [List.length_map, Config.names, List.getElem?_map, hb]
      rfl
    obtain ⟨left, hleft⟩ := hp
    rw [← hleft, List.getElem?_append_right (Nat.le_refl _), Nat.sub_self] at hn
    cases left with
    | nil => cases hn
    | cons name left =>
      cases hn
      refine ⟨left, ?_⟩
      rw [List.map_append, List.append_assoc]
      exact hleft
  · rename_i hb
    apply h.work hload
    rw [hh]
    rintro req ⟨rfl, hp⟩
    refine ⟨trivial, ?_⟩
    apply hp.eq_of_length_le
    rw [Config.names, List.length_map, List.length_map]
    exact List.getElem?_eq_none_iff.1 hb

theorem Session.Paced.serve (h : s.Paced cfg) (hs : s.serve cfg env = some s') :
    s'.Paced cfg := by
  unfold Session.serve at hs
  split at hs
  · split at hs
    · cases hs
    · rename_i hq
      cases hs
      exact h.begin hq env
  · rename_i hh
    cases hs
    exact h.list hh
  · cases hs

theorem Session.Paced.send (h : s.Paced cfg) (hs : s.send sent = some s') : s'.Paced cfg := by
  unfold Session.send at hs
  split at hs
  · rename_i res hh
    have hload : s.handler.load ≠ 0 := by
      rw [hh]
      exact nofun
    split at hs
    · cases hs
      obtain ⟨r, hx, hr⟩ := h.exchange
      refine ⟨⟨r, ?_, hr⟩, h.rows, h.order, h.queued⟩
      cases hx with
      | idle _ h0 _ => exact absurd h0 hload
      | sent _ h0 _ => exact absurd h0 hload
      | answered _ h0 _ _ _ => exact absurd h0 hload
      | served hq hserves ha =>
        rw [hh] at hserves
        refine .answered hq rfl ?_ hserves.1 hserves.2
        dsimp only
        rw [ha]
        rfl
    · cases hs
      exact h.work hload fun _ _ => trivial
  · cases hs

theorem Session.Paced.hangUp (h : s.Paced cfg) (hs : s.hangUp = some s') : s'.Paced cfg := by
  unfold Session.hangUp at hs
  split at hs
  · rename_i hh
    cases hs
    obtain ⟨r, hx, hr⟩ := h.exchange
    refine ⟨⟨r, ?_, hr⟩, h.rows, h.order, h.queued⟩
    cases hx with
    | idle hq _ ha => exact .idle hq rfl ha
    | sent hq _ ha => exact .sent hq rfl ha
    | answered hq _ ha hans hl => exact .answered hq rfl ha hans hl
    | served _ hserves _ =>
      rw [hh] at hserves
      cases hserves
  · cases hs

theorem Session.Paced.notice (h : s.Paced cfg) (p : Proxy K) :
    Session.Paced cfg { s with handler := s.notice p, proxy := p } := by
  have hkeep : Session.Paced cfg { s with handler := s.notice p } := by
    unfold Session.notice
    split
    · rename_i req i hh
      have hload : s.handler.load ≠ 0 := by
        rw [hh]
        exact nofun
      apply h.work hload
      rw [hh]
      rintro req' ⟨rfl, hact⟩
      split
      · exact ⟨backendMetricSwitcher_answers _ _ req, backendMetricSwitcher_lists _ hact _⟩
      · exact ⟨rfl, hact⟩
    · exact h
  exact ⟨hkeep.exchange, hkeep.rows, hkeep.order, hkeep.queued⟩

theorem Session.Paced.step [LE C] [DecidableLE C] {a : SessionAct C} (h : s.Paced cfg)
    (hs : s.step cfg forever a = some s') : s'.Paced cfg := by
  cases a with
  | event ev => exact h.event hs
  | select ticker written => exact h.select hs
  | read => exact h.read hs
  | lose close => exact h.lose hs
  | serve env => exact h.serve hs
  | send sent => exact h.send hs
  | hangUp => exact h.hangUp hs
  | proxy a =>
    obtain ⟨p, _, rfl⟩ := Option.map_eq_some_iff.1 hs
    exact h.notice p

/-- In every run of a monitor together with the proxy, the two stay in step. -/
theorem session_in_step [LE C] [DecidableLE C] (cfg : Config) (forever : Option Nat)
    (b₀ : Nat → Backend K) (bal : Balancer) (acts : List (SessionAct C)) (s : Session K)
    (hr : run (Session.step cfg forever) (.start b₀ bal) acts = some s) : s.InStep cfg := by
  have h : s.Paced cfg :=
    run_preserves (Session.Paced cfg) (fun h hs => h.step hs) (Session.start_paced cfg b₀ bal) hr
  exact h.inStep

def Session.MovesOnList (s : Session K) : SessionAct C → Prop
  | .event ev => s.app.MovesOnList (.event ev)
  | _ => True

/-- What the user gets taken in the step is for the row that is selected at that moment. -/
def Session.TakesSelected [LE C] [DecidableLE C] (cfg : Config) (forever : Option Nat)
    (s : Session K) (a : SessionAct C) : Prop :=
  ∀ s', s.step cfg forever a = some s' → ∃ new, s'.taken = s.taken ++ new ∧
    ∀ req ∈ new, req.target = s.app.backendsState

/-- Every action is about a row of the list, and the only error is that of a failed switch. -/
structure Session.Aimed (cfg : Config) (s : Session K) : Prop where
  paced : s.Paced cfg
  tracks : s.app.Tracks cfg.backends.length
  taken : ∀ req ∈ s.taken, ∃ id, req.target = some id ∧ id < cfg.backends.length
  sending : ∀ msg, s.handler = .sending (.error msg) → msg = buildFailed
  answers : ∀ msg, .error msg ∈ s.answers → msg = buildFailed

theorem Session.Paced.lists (h : s.Paced cfg) (ha : res ∈ s.answers) : res.Lists cfg.names := by
  obtain ⟨r, hx, _⟩ := h.exchange
  cases hx with
  | idle _ _ hnil => rw [hnil] at ha; cases ha
  | sent _ _ hnil => rw [hnil] at ha; cases ha
  | served _ _ hnil => rw [hnil] at ha; cases ha
  | answered _ _ hone _ hl =>
    rw [hone] at ha
    rw [List.mem_singleton.1 ha]
    exact hl

theorem App.Tracks.selected {app : App β} (h : app.Tracks n) (hn : 0 < n) :
    ∃ i < n, app.backendsState = some i := by
  obtain ⟨_, hs⟩ | ⟨_, hs⟩ := h
  · exact ⟨0, hn, hs⟩
  · exact hs

theorem App.Tracks.quiet {app app' : App β} (h : app.Tracks n) (ha : a.FetchesOnly n)
    (hc : a.command = .nothing) (hs : app.step a = some app') : app'.Tracks n := by
  apply (h.step ha hs).2
  intro hsel
  rw [hc] at hsel
  cases hsel

theorem Session.Aimed.event (h : s.Aimed cfg) (hn : 0 < cfg.backends.length)
    (hm : s.app.MovesOnList (.event ev)) (hs : s.event ev = some s') : s'.Aimed cfg := by
  have hp := h.paced.event hs
  obtain ⟨app, ha, rfl⟩ := Option.map_eq_some_iff.1 hs
  obtain ⟨new, hq⟩ := App.event_queues ha
  have hstep := h.tracks.step (a := .event ev) nofun ha
  refine ⟨hp, hstep.2 hm, ?_, h.sending, h.answers⟩
  intro req hreq
  dsimp only at hreq
  rw [hq.queue, List.drop_left] at hreq
  obtain hreq | hreq := List.mem_append.1 hreq
  · exact h.taken req hreq
  · obtain ⟨i, hi, hsel⟩ := h.tracks.selected hn
    exact ⟨i, (hq.targets req hreq).2.trans hsel, hi⟩

theorem Session.Aimed.read (h : s.Aimed cfg) (hs : s.read = some s') : s'.Aimed cfg := by
  have hp := h.paced.read hs
  unfold Session.read at hs
  split at hs
  · cases hs
  · rename_i res answers hans
    obtain ⟨app, ha, rfl⟩ := Option.map_eq_some_iff.1 hs
    have hlist : res.Lists cfg.names := by
      apply h.paced.lists
      rw [hans]
      exact List.mem_cons_self
    refine ⟨hp, h.tracks.quiet ?_ rfl ha, h.taken, h.sending, ?_⟩
    · intro items hitems
      cases res with
      | allBackends items' =>
        cases hitems
        have hlen := congrArg List.length hlist
        rwa [Config.names, List.length_map, List.length_map] at hlen
      | _ => cases hitems
    · intro msg hmsg
      apply h.answers msg
      rw [hans]
      exact List.mem_cons_of_mem res hmsg

theorem Session.Aimed.begin (h : s.Aimed cfg) (hq : s.requests = req :: rest) (env : BuildEnv) :
    (Session.begin cfg { s with requests := rest } env req).Aimed cfg := by
  have hp := h.paced.begin hq env
  cases htask : req.task env with
  | none =>
    rw [Session.begin, htask] at hp ⊢
    exact ⟨hp, h.tracks, h.taken, nofun, h.answers⟩
  | some t =>
    obtain ⟨id, r⟩ := t
    have htarget : req.target = some id := by
      rw [← req.task_fst env, htask]
      rfl
    have hmem : req ∈ s.taken := by
      obtain ⟨left, ho, _⟩ := h.paced.order
      have hact : req.isAction = true := by
        rw [req.isAction_eq, htarget]
        rfl
      rw [ho, hq, List.filter_cons_of_pos hact]
      exact List.mem_append_right _ (List.mem_append_left _ List.mem_cons_self)
    obtain ⟨id', hid, hlt⟩ := h.taken req hmem
    cases htarget.symm.trans hid
    rw [Session.begin, htask] at hp ⊢
    dsimp only at hp ⊢
    rw [if_pos hlt] at hp ⊢
    exact ⟨hp, h.tracks, h.taken, nofun, h.answers⟩

theorem Session.Aimed.serve (h : s.Aimed cfg) (hs : s.serve cfg env = some s') :
    s'.Aimed cfg := by
  have hp := h.paced.serve hs
  unfold Session.serve at hs
  split at hs
  · split at hs
    · cases hs
    · rename_i hq
      cases hs
      exact h.begin hq env
  · cases hs
    unfold Session.list at hp ⊢
    split at hp
    · exact ⟨hp, h.tracks, h.taken, nofun, h.answers⟩
    · exact ⟨hp, h.tracks, h.taken, nofun, h.answers⟩
  · cases hs

theorem Session.Aimed.send (h : s.Aimed cfg) (hs : s.send sent = some s') : s'.Aimed cfg := by
  have hp := h.paced.send hs
  unfold Session.send at hs
  split at hs
  · rename_i res hh
    split at hs
    · cases hs
      refine ⟨hp, h.tracks, h.taken, nofun, ?_⟩
      intro msg hmsg
      obtain hmsg | hmsg := List.mem_append.1 hmsg
      · exact h.answers msg hmsg
      · apply h.sending msg
        rw [hh, List.mem_singleton.1 hmsg]
    · cases hs
      exact ⟨hp, h.tracks, h.taken, nofun, h.answers⟩
  · cases hs

theorem ProxyTask.result_error {t : ProxyTask} (h : t.result = .error msg) :
    msg = buildFailed := by
  unfold ProxyTask.result at h
  split at h
  · cases h
    rfl
  · cases h

theorem backendMetricSwitcher_error {items : List β} {req : MetricApiReq}
    (h : backendMetricSwitcher items result req = .error msg) : result = .error msg := by
  unfold backendMetricSwitcher at h
  cases req <;> cases result <;> cases h <;> rfl

theorem Session.Aimed.notice (h : s.Aimed cfg) (p : Proxy K) :
    Session.Aimed cfg { s with handler := s.notice p, proxy := p } := by
  refine ⟨h.paced.notice p, h.tracks, h.taken, ?_, h.answers⟩
  intro msg hmsg
  dsimp only at hmsg
  unfold Session.notice at hmsg
  split at hmsg
  · split at hmsg
    · rename_i req i _ _
      have hres := backendMetricSwitcher_error (HandlerPc.sending.inj hmsg)
      cases ht : s.proxy.tasks[i]? with
      | none =>
        rw [ht] at hres
        cases hres
      | some t =>
        rw [ht] at hres
        exact ProxyTask.result_error hres
    · cases hmsg
  · exact h.sending msg hmsg

theorem Session.Aimed.step [LE C] [DecidableLE C] {a : SessionAct C} (h : s.Aimed cfg)
    (hn : 0 < cfg.backends.length) (hm : s.MovesOnList a)
    (hs : s.step cfg forever a = some s') : s'.Aimed cfg := by
  cases a with
  | event ev => exact h.event hn hm hs
  | select ticker written =>
    have hp := h.paced.select hs
    obtain ⟨app, ha, rfl⟩ := Option.map_eq_some_iff.1 hs
    have ht := h.tracks.quiet (a := .select ticker written) nofun rfl ha
    exact ⟨hp, ht, h.taken, h.sending, h.answers⟩
  | read => exact h.read hs
  | lose close =>
    have hp := h.paced.lose hs
    obtain ⟨app, ha, rfl⟩ := Option.map_eq_some_iff.1 hs
    refine ⟨hp, h.tracks.quiet ?_ rfl ha, h.taken, h.sending, h.answers⟩
    cases close <;> exact nofun
  | serve env => exact h.serve hs
  | send sent => exact h.send hs
  | hangUp =>
    have hp := h.paced.hangUp hs
    simp only [Session.step, Session.hangUp] at hs
    split at hs
    · cases hs
      exact ⟨hp, h.tracks, h.taken, nofun, h.answers⟩
    · cases hs
  | proxy a =>
    obtain ⟨p, _, rfl⟩ := Option.map_eq_some_iff.1 hs
    exact h.notice p

theorem Session.begin_taken (cfg : Config) (s : Session K) (env : BuildEnv) (req : MetricApiReq) :
    (s.begin cfg env req).taken = s.taken := by
  unfold Session.begin
  split
  · rfl
  · split <;> rfl

/-- Only an event of the user gets something taken. -/
theorem Session.step_taken [LE C] [DecidableLE C] {s s' : Session K} {a : SessionAct C}
    (hs : s.step cfg forever a = some s') (ha : ∀ ev, a ≠ .event ev) : s'.taken = s.taken := by
  cases a with
  | event ev => exact absurd rfl (ha ev)
  | select ticker written =>
    obtain ⟨app, _, rfl⟩ := Option.map_eq_some_iff.1 hs
    rfl
  | read =>
    simp only [Session.step, Session.read] at hs
    split at hs
    · cases hs
    · obtain ⟨app, _, rfl⟩ := Option.map_eq_some_iff.1 hs
      rfl
  | lose close =>
    obtain ⟨app, _, rfl⟩ := Option.map_eq_some_iff.1 hs
    rfl
  | serve env =>
    simp only [Session.step, Session.serve] at hs
    split at hs
    · split at hs
      · cases hs
      · cases hs
        exact Session.begin_taken cfg _ env _
    · cases hs
      unfold Session.list
      split <;> rfl
    · cases hs
  | send sent =>
    simp only [Session.step, Session.send] at hs
    split at hs
    · split at hs <;> cases hs <;> rfl
    · cases hs
  | hangUp =>
    simp only [Session.step, Session.hangUp] at hs
    split at hs <;> cases hs
    rfl
  | proxy a =>
    obtain ⟨p, _, rfl⟩ := Option.map_eq_some_iff.1 hs
    rfl

theorem Session.takesSelected [LE C] [DecidableLE C] (cfg : Config) (forever : Option Nat)
    (s : Session K) (a : SessionAct C) : s.TakesSelected cfg forever a := by
  intro s' hs
  by_cases ha : ∃ ev, a = .event ev
  · obtain ⟨ev, rfl⟩ := ha
    obtain ⟨app, happ, rfl⟩ := Option.map_eq_some_iff.1 hs
    obtain ⟨new, hq⟩ := App.event_queues happ
    refine ⟨new, ?_, fun req hreq => (hq.targets req hreq).2⟩
    dsimp only
    rw [hq.queue, List.drop_left]
  · refine ⟨[], ?_, nofun⟩
    rw [List.append_nil]
    exact Session.step_taken hs fun ev he => ha ⟨ev, he⟩

theorem Config.backend_getElem {b : ConfigBackend} (h : cfg.backends[i]? = some b) :
    b.backend = i := by
  have hn := congrArg (fun l => l[i]?) cfg.numbered
  have hi := (List.getElem?_eq_some_iff.1 h).1
  rw [List.getElem?_map, h, List.getElem?_range hi] at hn
  exact Option.some.inj hn

/-- What a user gets taken is for the row selected at that moment. One who does not move the
selection before the first list has come always acts on a backend of the list, the one that its row
shows, and gets no error but that of a failed switch. -/
theorem session_targets [LE C] [DecidableLE C] (cfg : Config) (forever : Option Nat)
    (b₀ : Nat → Backend K) (bal : Balancer) (acts : List (SessionAct C)) (s : Session K)
    (hn : 0 < cfg.backends.length)
    (hm : AllSteps (Session.step cfg forever) Session.MovesOnList (.start b₀ bal) acts)
    (hr : run (Session.step cfg forever) (.start b₀ bal) acts = some s) :
    AllSteps (Session.step cfg forever) (Session.TakesSelected cfg forever) (.start b₀ bal) acts ∧
    (∀ req ∈ s.taken, ∃ id b, req.target = some id ∧ cfg.backends[id]? = some b ∧
      b.backend = id ∧ (s.app.fetcher.backends ≠ [] →
        s.app.fetcher.backends[id]?.map BackendMetric.backendName = some b.backendName)) ∧
    ∀ msg, .error msg ∈ s.answers → msg = buildFailed := by
  have hstart : (Session.start b₀ bal).Aimed cfg :=
    ⟨Session.start_paced cfg b₀ bal, .inl ⟨rfl, rfl⟩, nofun, nofun, nofun⟩
  have h : s.Aimed cfg :=
    run_invariant (Session.Aimed cfg) (fun h hm hs => h.step hn hm hs) hstart hm hr
  refine ⟨allSteps_of_forall (Session.takesSelected cfg forever), ?_, h.answers⟩
  intro req hreq
  obtain ⟨id, hid, hlt⟩ := h.taken req hreq
  have hb := List.getElem?_eq_getElem hlt
  refine ⟨id, _, hid, hb, Config.backend_getElem hb, ?_⟩
  intro hne
  have hrows := h.paced.rows.resolve_left hne
  rw [← List.getElem?_map, hrows, Config.names, List.getElem?_map, hb]
  rfl

end

/-- The monitor fetches the list of three backends, and the user goes down one row and resets the
backend there. -/
def resetSecond : List (SessionAct Nat) :=
  [.select true (.ok ()), .serve workingTls, .serve workingTls, .serve workingTls,
    .serve workingTls, .serve workingTls, .send true, .read] ++
  [.event (.key ⟨.down, true, true⟩), .event (.key ⟨.char 'r', true, true⟩), .select false (.ok ()),
    .serve workingTls, .proxy (.run 0 0 (fun _ => 0) .ok), .proxy (.run 0 0 (fun _ => 0) .ok),
    .proxy (.run 0 0 (fun _ => 0) .ok), .proxy (.run 0 0 (fun _ => 0) .ok),
    .proxy (.run 0 0 (fun _ => 0) .ok), .send true]

theorem resetSecond_in_step : ∃ s : Session ℚ,
    run (Session.step threeBackends none) (.start (fun _ => plainBackend) (.roundRobin 0))
      resetSecond = some s ∧ s.served = [.resetBackend 1] ∧ s.InStep threeBackends :=
  ⟨_, rfl, rfl, session_in_step threeBackends none (fun _ => plainBackend) (.roundRobin 0)
    resetSecond _ rfl⟩

theorem resetSecond_targets : ∃ s : Session ℚ,
    run (Session.step threeBackends none) (.start (fun _ => plainBackend) (.roundRobin 0))
      resetSecond = some s ∧
    AllSteps (Session.step (K := ℚ) threeBackends none) (Session.TakesSelected threeBackends none)
      (.start (fun _ => plainBackend) (.roundRobin 0)) resetSecond ∧
    (∀ req ∈ s.taken, ∃ id b, req.target = some id ∧ threeBackends.backends[id]? = some b ∧
      b.backend = id ∧ (s.app.fetcher.backends ≠ [] →
        s.app.fetcher.backends[id]?.map BackendMetric.backendName = some b.backendName)) ∧
    ∀ msg, .error msg ∈ s.answers → msg = buildFailed := by
  have hm : AllSteps (Session.step (K := ℚ) threeBackends none) Session.MovesOnList
      (.start (fun _ => plainBackend) (.roundRobin 0)) resetSecond := by
    iterate 8 refine (allSteps_cons rfl).2 ⟨trivial, ?_⟩
    refine (allSteps_cons rfl).2 ⟨fun _ => List.cons_ne_nil _ _, ?_⟩
    refine (allSteps_cons rfl).2 ⟨nofun, ?_⟩
    iterate 8 refine (allSteps_cons rfl).2 ⟨trivial, ?_⟩
    trivial
  exact ⟨_, rfl, session_targets threeBackends none (fun _ => plainBackend) (.roundRobin 0)
    resetSecond _ (by decide) hm rfl⟩

end Octoproxy
