import Afterglow.Model.Types

/-!
# Language and checker profiles

Reference: `internal/service/language.go` from `profileForLanguage` on, and the constants and limits
of `internal/service/checker.go`.
-/

namespace Afterglow.Service

open Execution

/-! ## Configurations -/

/-- `compileConfig`. -/
structure CompileConfig where
  imageRef : String
  sourceFile : String
  artifactName : String
  buildCommand : List String
  timeoutMs : ℤ
  memoryMB : ℤ
deriving Repr, DecidableEq

/-- `runConfig`. -/
structure RunConfig where
  imageRef : String
  runtimeCommand : String → ℤ → List String

/-- `languageProfile`. -/
structure LanguageProfile where
  compile : CompileConfig
  run : RunConfig

def imageGCC12 : String := "docker.io/library/gcc:12-bookworm"
def imageDebian12 : String := "docker.io/library/debian:12-slim"
def imageJDK21 : String := "docker.io/library/eclipse-temurin:21-jdk-jammy"
def imageJRE21 : String := "docker.io/library/eclipse-temurin:21-jre-jammy"
def imagePy311 : String := "docker.io/library/python:3.11-slim-bookworm"

/-! ## The languages -/

def cProfile : LanguageProfile where
  compile :=
    { imageRef := imageGCC12
      sourceFile := "main.c"
      artifactName := "program"
      buildCommand := ["gcc", "-O2", "-pipe", "-static", "-s", "-o", "program", "main.c", "-lm"]
      timeoutMs := 30000
      memoryMB := 512 }
  run := { imageRef := imageDebian12, runtimeCommand := fun p _ => [p] }

def cppProfile : LanguageProfile where
  compile :=
    { imageRef := imageGCC12
      sourceFile := "main.cpp"
      artifactName := "program"
      buildCommand := ["g++", "-std=c++20", "-O2", "-pipe", "-static", "-s", "-o", "program",
        "main.cpp", "-lm"]
      timeoutMs := 30000
      memoryMB := 512 }
  run := { imageRef := imageDebian12, runtimeCommand := fun p _ => [p] }

def javaProfile : LanguageProfile where
  compile :=
    { imageRef := imageJDK21
      sourceFile := "Main.java"
      artifactName := "solution.jar"
      buildCommand := ["sh", "-c", "mkdir -p classes && " ++
        "javac -encoding UTF-8 -d classes Main.java && " ++
        "jar --create --file solution.jar --main-class Main -C classes ."]
      timeoutMs := 30000
      memoryMB := 512 }
  run :=
    { imageRef := imageJRE21
      runtimeCommand := fun p memoryMB =>
        ["java", "-Xmx" ++ toString memoryMB ++ "m", "-Xms" ++ toString (min memoryMB 64) ++ "m",
          "-jar", p] }

def pythonProfile : LanguageProfile where
  compile :=
    { imageRef := imagePy311
      sourceFile := "solution.py"
      artifactName := "solution.pyc"
      buildCommand := ["sh", "-c", "python3 -c 'import py_compile; " ++
        "py_compile.compile(\"solution.py\", cfile=\"solution.pyc\", doraise=True)' || exit 1"]
      timeoutMs := 10000
      memoryMB := 256 }
  run := { imageRef := imagePy311, runtimeCommand := fun p _ => ["python3", p] }

def profileForLanguage : Language → Except Err LanguageProfile
  | .c => .ok cProfile
  | .cpp => .ok cppProfile
  | .java => .ok javaProfile
  | .python => .ok pythonProfile
  | lang => .error (.text ("unsupported language: " ++ lang.string))

def javaNativeReserveMB : ℤ := 64

/-- `sandboxMemoryLimitMB`, in the arithmetic of `int`. -/
def sandboxMemoryLimitMB (lang : Language) (memoryLimitMB : ℤ) : ℤ :=
  if lang ≠ .java then memoryLimitMB
  else toInt64 (memoryLimitMB + max javaNativeReserveMB (memoryLimitMB.tdiv 4))

def normalizeLanguageRunResult (lang : Language) (runOut : RunResult) : RunResult :=
  if lang = .java ∧ runOut.verdict = .re ∧
      containsBytes runOut.stderr (utf8 "java.lang.OutOfMemoryError") then
    { runOut with verdict := .mle }
  else runOut

/-- `compiledLanguageProgram`; its executor is the engine's. -/
structure CompiledLanguageProgram where
  language : Language
  profile : RunConfig
  artifact : Artifact

/-- The limits of one compilation by a profile. -/
def CompileConfig.limits (config : CompileConfig) : Sandbox.ResourceLimits where
  cpuTimeMs := config.timeoutMs
  wallTimeMs := toInt64 (config.timeoutMs * WallTimeMultiplier)
  memoryMB := config.memoryMB
  outputBytes := DefaultCompileOutputLimitBytes

/-- The request that `resolvedLanguage.Compile` makes. -/
def CompileConfig.request (config : CompileConfig) (sourceCode : Bytes) : CompileRequest where
  files := [{ name := config.sourceFile, content := sourceCode, mode := 0o644 }]
  imageRef := config.imageRef
  command := config.buildCommand
  artifactName := config.artifactName
  limits := config.limits

/-- The request that `compiledLanguageProgram.Run` makes. -/
def CompiledLanguageProgram.request (p : CompiledLanguageProgram) (input : Bytes)
    (timeLimit memoryLimit : UInt32) : RunRequest where
  artifact := p.artifact
  imageRef := p.profile.imageRef
  command := p.profile.runtimeCommand ("./" ++ p.artifact.name) memoryLimit.toNat
  stdin := some input
  limits :=
    { cpuTimeMs := timeLimit.toNat
      wallTimeMs := toInt64 (timeLimit.toNat * WallTimeMultiplier)
      memoryMB := sandboxMemoryLimitMB p.language memoryLimit.toNat
      outputBytes := DefaultRunOutputLimitBytes }

/-! ## The checker -/

def testlibHeaderKey : String := "testlib.h"
def checkerInputFileName : String := "input.txt"
def checkerOutputFileName : String := "output.txt"
def checkerAnswerFileName : String := "answer.txt"
def checkerArtifactName : String := "checker"
def checkerRunImageRef : String := imageDebian12
def checkerCPUTimeLimitMs : ℤ := 3000
def checkerMemoryLimitMB : ℤ := 256

def checkerCompileProfile : CompileConfig where
  imageRef := imageGCC12
  sourceFile := "checker.cpp"
  artifactName := checkerArtifactName
  buildCommand := ["g++", "-std=c++20", "-O2", "-pipe", "-static", "-s", "-o", checkerArtifactName,
    "checker.cpp", "-lm"]
  timeoutMs := 30000
  memoryMB := 512

def checkerRunLimits : Sandbox.ResourceLimits where
  cpuTimeMs := checkerCPUTimeLimitMs
  wallTimeMs := toInt64 (checkerCPUTimeLimitMs * WallTimeMultiplier)
  memoryMB := checkerMemoryLimitMB
  outputBytes := DefaultRunOutputLimitBytes

/-- The request that `checkerCompiler.compileUncached` makes with its profile. -/
def checkerCompileRequest (testlibHeader source : Bytes)
    (profile : CompileConfig := checkerCompileProfile) : CompileRequest where
  files := [{ name := profile.sourceFile, content := source, mode := 0o644 },
    { name := testlibHeaderKey, content := testlibHeader, mode := 0o644 }]
  imageRef := profile.imageRef
  command := profile.buildCommand
  artifactName := profile.artifactName
  limits := profile.limits

/-- The request that `compiledChecker.Check` makes. -/
def checkerRunRequest (artifact : Artifact) (input actualOutput expectedOutput : Bytes) :
    RunRequest where
  artifact := artifact
  files := [{ name := checkerInputFileName, content := input, mode := 0o644 },
    { name := checkerOutputFileName, content := actualOutput, mode := 0o644 },
    { name := checkerAnswerFileName, content := expectedOutput, mode := 0o644 }]
  imageRef := checkerRunImageRef
  command := ["./" ++ artifact.name, checkerInputFileName, checkerOutputFileName,
    checkerAnswerFileName]
  limits := checkerRunLimits

/-- Compiling a program never makes the request of a checker compilation. -/
theorem CompileConfig.request_ne_checker (config : CompileConfig) (sourceCode header source : Bytes) :
    config.request sourceCode ≠ checkerCompileRequest header source := by
  intro h
  have hlen := congrArg (fun r => r.files.length) h
  simp [CompileConfig.request, checkerCompileRequest] at hlen

end Afterglow.Service
