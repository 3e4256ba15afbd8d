import Afterglow.Halting
import Afterglow.Decimal
import Afterglow.Concurrency.Prog
import Afterglow.Concurrency.System
import Afterglow.Concurrency.Termination
import Afterglow.Concurrency.Discipline
import Afterglow.Concurrency.Capacity
import Afterglow.Model.Basic
import Afterglow.Model.Text
import Afterglow.Model.Types
import Afterglow.Model.Path
import Afterglow.Service.Profile
import Afterglow.Service.Limits
import Afterglow.Sandbox.OutputLimiter
import Afterglow.Sandbox.OutputBudget
import Afterglow.Sandbox.Verdict
import Afterglow.Sandbox.Watch
import Afterglow.Sandbox.Kill
import Afterglow.Sandbox.Spec
import Afterglow.Sandbox.Deadlines
import Afterglow.Engine.Op
import Afterglow.Engine.World
import Afterglow.Engine.Slots
import Afterglow.Sandbox.CpuPool
import Afterglow.Sandbox.Execute
import Afterglow.Execution.Executor
import Afterglow.Execution.Operations
import Afterglow.Engine.Holdings
import Afterglow.Execution.Holdings
import Afterglow.Execution.Conservation
import Afterglow.Execution.CompileOutcome
import Afterglow.Service.Checker
import Afterglow.Service.CheckerChoice
import Afterglow.Service.CheckerCache
import Afterglow.Service.SharedCompile
import Afterglow.Service.Judge
import Afterglow.Service.Requests
import Afterglow.Service.Admission
import Afterglow.Service.Course
import Afterglow.Service.Attribution
import Afterglow.Service.Rejection
import Afterglow.Service.Evidence
import Afterglow.Service.Refinement
import Afterglow.Service.Progress
import Afterglow.Service.Completion
import Afterglow.Service.CompileOutcome
import Afterglow.Service.CompileDeadline
import Afterglow.Testlib.Reader
import Afterglow.Testlib.Stream
import Afterglow.Testlib.DefaultChecker
import Afterglow.Testlib.Rendering
import Afterglow.Testlib.Token
import Afterglow.Testlib.Number
import Afterglow.Testlib.Pattern
import Afterglow.Testlib.PatternText
import Afterglow.Testlib.PatternLanguage
import Afterglow.Testlib.Checker
import Afterglow.Testlib.TokenCheckers
import Afterglow.Testlib.SingleToken
import Afterglow.Testlib.LineCheckers
import Afterglow.Testlib.Bundle
import Afterglow.Service.BundledVerdict
import Afterglow.Service.Isolation
import Afterglow.Service.Occupancy
import Afterglow.Server.Startup
import Afterglow.Server.Serve
