import Stepwise.Coordinator.Basic

/-!
# Attempts

What a session does once it is through the gate: it is checked, and if it is to be executed, it
is run until a run completes, fails for good, or is cancelled. Between two runs there is a pause,
twice as long each time.
-/

namespace Stepwise

namespace Session

/-- The time since the request. -/
def elapsed (session : Session) (world : World) : Duration :=
  .ofMillis (world.now - session.startedAt)

/-- The response of a cancelled session. -/
def cancelledResponse (session : Session) (world : World) (partialResult : Option Json) :
    Response :=
  { Response.failure session.id .cancelled (.cancelled session.id) (session.elapsed world) with
    result := partialResult
    retries := session.retries }

/-- The response of a session whose last run completed. -/
def completedResponse (session : Session) (world : World) (plan : Plan) (results : Table Json) :
    Response :=
  { Response.completed session.id "Workflow completed" (some (.obj results))
      (session.elapsed world) with
    validation := some plan.report
    retries := session.retries }

/-- The response of a session whose last run failed. -/
def failedResponse (session : Session) (world : World) (plan : Plan) (fault : Fault)
    (results : Table Json) : Response :=
  { Response.failure session.id (.ofFault fault) fault (session.elapsed world) with
    result := some (.obj results)
    validation := some plan.report
    retries := session.retries }

/-- The results of the last run. -/
def results (session : Session) : Table Json := (session.context.map Context.results).getD []

end Session

/-- What a session has come to: it goes on, or it ends. -/
inductive Move where
  | stays (session : Session)
  | ends (response : Response)

namespace Session

/-- A session knows that it is cancelled when an answer in its own run has asked for it. -/
def notice (session : Session) (world : World) : Session :=
  if world.requests.contains session.id then { session with cancelled := true } else session

/-- Begins the pause between two runs; no pause at all leads to the next run at once. -/
def pauseAfter (policy : Policy) (plan : Plan) (again : World → Session → World × Move)
    (session : Session) (fault : Fault) (world : World) : World × Move :=
  let pause := policy.pause session.retries
  let session := { session with retries := session.retries + 1 }
  let world := world.emit
    (.workflowRetrying session.id session.retries pause.shownMillis fault.message)
  if pause = .zero then again world session
  else
    ({ world with tickets := world.tickets + 1 },
      .stays { session with phase := .pausing plan world.tickets (world.wakeAt pause) })

/-- Goes on after a step of a run. A run that has failed is followed by a pause if the fault may
go away and there may be another run; `again` makes it. -/
def afterStep (policy : Policy) (plan : Plan) (again : Option (World → Session → World × Move))
    (session : Session) : RunState × Run.Stage → World × Move
  | (s, .active activity limit) =>
    (s.world, .stays { session with
      context := some s.context, phase := .executing plan activity limit })
  | (s, .ended outcome) =>
    let session := { session with context := some s.context }.notice s.world
    match outcome with
    | .ok result =>
      if result.isCancelled then
        (s.world, .ends (session.cancelledResponse s.world (some (.obj result.results))))
      else (s.world, .ends (session.completedResponse s.world plan result.results))
    | .error fault =>
      let results := s.context.results
      if session.cancelled || fault.isCancelled then
        (s.world, .ends (session.cancelledResponse s.world (some (.obj results))))
      else
        match fault.isRetryable, again with
        | true, some again => pauseAfter policy plan again session fault s.world
        | _, _ => (s.world, .ends (session.failedResponse s.world plan fault results))

/-- The context in which a run starts: nothing but the parameters. -/
def freshContext (session : Session) : Context :=
  { Context.fresh session.request.workflowId session.id session.request.parameters with
    cancelled := session.cancelled }

/-- Runs the tree of a plan; `left` runs may follow. -/
def execute (engine : Engine) (policy : Policy) (plan : Plan) :
    (left : Nat) → World → Session → World × Move
  | 0, world, session => launch none world session
  | left + 1, world, session =>
    launch (some (execute engine policy plan left)) world session
where
  /-- One run, after which `again` makes the next one. -/
  launch (again : Option (World → Session → World × Move)) (world : World) (session : Session) :
      World × Move :=
    afterStep policy plan again { session with attempt := session.retries }
      (Run.launch engine plan.root plan.timeout ⟨world, session.freshContext⟩)

/-- What makes the run after the present one, if there may be one. -/
def again? (engine : Engine) (policy : Policy) (plan : Plan) (session : Session) :
    Option (World → Session → World × Move) :=
  match plan.maxRetries - session.retries with
  | 0 => none
  | left + 1 => some (execute engine policy plan left)

/-- Goes on with a run after a stimulus. -/
def goOn (engine : Engine) (policy : Policy) (plan : Plan) (activity : Activity)
    (limit : Option Run.TimeLimit) (world : World) (session : Session) (stimulus : Run.Stimulus) :
    World × Move :=
  let context := session.context.getD session.freshContext
  afterStep policy plan (session.again? engine policy plan) session
    (Run.step engine ⟨world, context⟩ (.active activity limit) stimulus)

/-- Goes on after a pause: with the next run, unless the session was cancelled and that was noticed
before the end of the pause. -/
def rested (engine : Engine) (policy : Policy) (plan : Plan) (deaf : Bool) (world : World)
    (session : Session) : World × Move :=
  if session.cancelled && !deaf then
    (world, .ends (session.cancelledResponse world (some (.obj session.results))))
  else execute engine policy plan (plan.maxRetries - session.retries) world session

/-- The plan that a dry run shows. -/
def planJson (root : Node) (report : Report) : Json :=
  .ofMembers
    [("node_count", .ofNat root.count),
      ("depth", .ofNat root.depth),
      ("execution_order", .arr (report.stages.map .ofTexts)),
      ("dependency_graph", .obj (report.predecessors.mapValues .ofTexts)),
      ("estimated_duration", .float report.estimate.seconds)]

/-- The response to a request that asks for the check alone. -/
def checkResponse (session : Session) (world : World) (report : Report) : Response :=
  if report.isValid then
    { Response.completed session.id
        ("Workflow is valid (" ++ toString report.issues.length ++ " issue(s))") none
        (session.elapsed world) with
      validation := some report }
  else
    { Response.failure session.id .failed (.invalidWorkflow report.issues)
        (session.elapsed world) with
      message := "Workflow is invalid"
      validation := some report }

/-- Checks a request, and does with it what its mode says. -/
def proceed (engine : Engine) (policy : Policy) (world : World) (session : Session) :
    World × Move :=
  if session.cancelled then (world, .ends (session.cancelledResponse world none))
  else
    let session := { session with status := .running }
    let time := session.elapsed world
    match Step.parse session.request.steps with
    | .error faults => (world, .ends (.failure session.id .failed faults.collapse time))
    | .ok root =>
      let report := Checker.validate ⟨policy.limits, policy.catalog⟩ root
      match session.request.mode with
      | .validateOnly => (world, .ends (session.checkResponse world report))
      | mode =>
        if !report.isValid then
          (world, .ends
            { Response.failure session.id .failed (.invalidWorkflow report.issues) time with
              validation := some report })
        else if mode = .dryRun then
          (world, .ends
            { Response.completed session.id "Dry run: execution plan only"
                (some (planJson root report)) time with
              validation := some report })
        else
          let plan : Plan :=
            { root := root
              report := report
              maxRetries := (session.request.maxRetries.getD policy.maxRetries).toNat
              timeout := session.request.timeout.or policy.timeout }
          let world := world.emit
            (.workflowStarted session.request.workflowId session.id root.count)
          execute engine policy plan (plan.maxRetries - session.retries) world session

end Session

end Stepwise
