import Afterglow.Model.Text
import Afterglow.Sandbox.Verdict

/-!
# Requests and results of the engine

Reference: `internal/model/types.go`, and the data types of `internal/execution/execution.go` and
`internal/sandbox/sandbox.go`.
-/

namespace Afterglow

/-! ## The judge (`model/types.go`) -/

/-- `model.Language`; `other` is any string that is not one of the constants. -/
inductive Language
  | unknown
  | c
  | cpp
  | java
  | python
  | other (name : String)
deriving Repr, DecidableEq

/-- The string of a `model.Language`. -/
def Language.string : Language → String
  | .unknown => ""
  | .c => "C"
  | .cpp => "C++"
  | .java => "Java"
  | .python => "Python"
  | .other name => name

/-- `model.Verdict`. -/
inductive Verdict
  | ok
  | tle
  | mle
  | ole
  | re
  | wa
  | uke
  | checkerExecutionError
deriving Repr, DecidableEq

/-- `model.JudgeTestCase`. -/
structure JudgeTestCase where
  inputText : String := ""
  expectedOutput : String := ""
  inputFile : String := ""
  expectedOutputFile : String := ""
deriving Repr, DecidableEq

/-- `model.JudgeRequest`. -/
structure JudgeRequest where
  sourceCode : String
  checker : String := ""
  checkerSourceCode : String := ""
  language : Language
  timeLimit : UInt32
  memoryLimit : UInt32
  testCases : List JudgeTestCase
deriving Repr, DecidableEq

/-- `model.CompileResult`. -/
structure CompileResult where
  succeeded : Bool := false
  log : Bytes := []
deriving Repr, DecidableEq

/-- `model.JudgeCaseResult`. -/
structure JudgeCaseResult where
  verdict : Verdict
  stdout : Bytes := []
  timeUsed : ℤ := 0
  memoryUsed : ℤ := 0
  exitCode : ℤ := 0
  extraInfo : Bytes := []
deriving Repr, DecidableEq

/-- `model.JudgeStatus`; `unset` is its zero value, the empty string. -/
inductive JudgeStatus
  | unset
  | ok
  | compileError
  | systemError
  | checkerCompileError
  | checkerExecutionError
deriving Repr, DecidableEq

/-- `model.JudgeResult`, with the zero values as defaults. -/
structure JudgeResult where
  status : JudgeStatus := .unset
  compile : CompileResult := {}
  checkerCompile : Option CompileResult := none
  cases : List JudgeCaseResult := []
deriving Repr, DecidableEq

/-! ## Compiling and running (`execution/execution.go`) -/

namespace Execution

/-- `execution.Artifact`. -/
structure Artifact where
  name : String
  data : Bytes
  mode : ℕ
deriving Repr, DecidableEq

/-- `execution.File`. -/
structure File where
  name : String
  content : Bytes
  mode : ℕ
deriving Repr, DecidableEq

/-- `execution.CompileRequest`. -/
structure CompileRequest where
  files : List File
  imageRef : String
  command : List String
  artifactName : String
  limits : Sandbox.ResourceLimits
deriving Repr, DecidableEq

/-- `execution.CompileResult`. -/
structure CompileResult where
  log : Bytes := []
  artifact : Option Artifact := none
deriving Repr, DecidableEq

/-- `execution.RunRequest`; the reader `Stdin` is what it yields. -/
structure RunRequest where
  artifact : Artifact
  files : List File := []
  imageRef : String
  command : List String
  stdin : Option Bytes := none
  limits : Sandbox.ResourceLimits
deriving Repr, DecidableEq

/-- `execution.RunResult`. -/
structure RunResult where
  verdict : Verdict
  exitCode : ℤ
  stdout : Bytes
  stderr : Bytes
  cpuTimeMs : ℤ
  memoryMB : ℤ
  extraInfo : Bytes
deriving Repr, DecidableEq

def WallTimeMultiplier : ℤ := 3

def DefaultRunOutputLimitBytes : ℤ := 16 * 1024 * 1024

def DefaultCompileOutputLimitBytes : ℤ := 1 * 1024 * 1024

def maxCompileArtifactBytes : ℕ := 64 * 1024 * 1024

end Execution

/-! ## The sandbox (`sandbox/sandbox.go`) -/

namespace Sandbox

/-- `sandbox.Mount`; a host path is the number of the workspace directory. -/
structure Mount where
  hostPath : ℕ
  containerPath : String
  readOnly : Bool
deriving Repr, DecidableEq

/-- `sandbox.ExecuteRequest`. -/
structure ExecuteRequest where
  imageRef : String
  command : List String
  mountDir : Option Mount
  stdin : Option Bytes
  limits : ResourceLimits
  enableSeccomp : Bool
deriving Repr, DecidableEq

end Sandbox

end Afterglow
