import AutoInstrumentation.Lib.Transition
import Mathlib.Data.List.Basic

/-!
# AutoInstrumentation.NgenInliners

How the rejit preprocessor looks for the callers into which precompiled images have
inlined a method that is to be instrumented (`rejit_handler.cpp`,
`rejit_preprocessor.cpp`), as a labelled transition system.

A handler module holds the methods registered in it and the inliner modules it is done
with. `AddNGenInlinerModule` goes over all inliner modules seen so far and all handler
modules, and each handler module that is not done with an inliner module asks the CLR
for the inliners of each of its methods there. What the CLR answers is part of the
step. Every step holds the locks it needs throughout, so a run is one order of
registrations and calls, before shutdown. Beside the tables a state keeps the questions
asked and their answers.
-/

namespace AutoInstrumentation.NgenInliners

open Lib

abbrev ModuleId := BitVec 64
abbrev MethodDef := BitVec 32
abbrev HResult := BitVec 32

def eInvalidArg : HResult := 0x80070057
def corprofEDataIncomplete : HResult := 0x80131351
def corprofEUnsupportedCallSequence : HResult := 0x80131363

/-- `SUCCEEDED`. -/
def succeeded (hr : HResult) : Bool := 0 ≤ hr.toInt

/-- What `EnumNgenModuleMethodsInliningThisMethod` answers. -/
structure Answer where
  hr : HResult
  incompleteData : Bool
  /-- What the enumeration lists; each of them is enqueued for rejit. -/
  inliners : List (ModuleId × MethodDef)
  deriving DecidableEq, Repr

/-- The CLR: for an inliner module, and a method of a module. -/
abbrev Clr := ModuleId → ModuleId → MethodDef → Answer

/-- One question to the CLR. -/
structure Enumeration where
  inlinerModule : ModuleId
  moduleId : ModuleId
  methodDef : MethodDef
  answer : Answer
  deriving DecidableEq, Repr

structure RejitHandlerModule where
  moduleId : ModuleId
  methods : List MethodDef
  ngenProcessedInlinerModules : List ModuleId
  deriving DecidableEq, Repr

/-- The result of `RejitHandlerModuleMethod::RequestRejitForInlinersInModule`: whether
the handler module may go on. -/
def Answer.goesOn (answer : Answer) : Bool :=
  if succeeded answer.hr then !answer.incompleteData
  else if answer.hr = eInvalidArg then true
  else if answer.hr = corprofEDataIncomplete then false
  else if answer.hr = corprofEUnsupportedCallSequence then true
  else true

/-- The loop over the methods, with the questions it asks. It stops at the first failure. -/
def requestMethods (clr : Clr) (inlinerModule moduleId : ModuleId) :
    List MethodDef → Bool × List Enumeration
  | [] => (true, [])
  | methodDef :: methods =>
      let answer := clr inlinerModule moduleId methodDef
      let enumeration := ⟨inlinerModule, moduleId, methodDef, answer⟩
      if answer.goesOn then
        let (success, enumerations) := requestMethods clr inlinerModule moduleId methods
        (success, enumeration :: enumerations)
      else
        (false, [enumeration])

/-- `RejitHandlerModule::RequestRejitForInlinersInModule`. -/
def RejitHandlerModule.requestRejitForInlinersInModule (clr : Clr) (inlinerModule : ModuleId)
    (h : RejitHandlerModule) : RejitHandlerModule × List Enumeration :=
  if inlinerModule ∈ h.ngenProcessedInlinerModules then (h, [])
  else
    let (success, enumerations) := requestMethods clr inlinerModule h.moduleId h.methods
    if success then
      ({ h with ngenProcessedInlinerModules := inlinerModule :: h.ngenProcessedInlinerModules },
        enumerations)
    else
      (h, enumerations)

structure State where
  modules : List RejitHandlerModule
  ngenInlinersModules : List ModuleId
  /-- The questions asked, oldest first. -/
  enumerations : List Enumeration
  deriving DecidableEq, Repr

def State.initial : State where
  modules := []
  ngenInlinersModules := []
  enumerations := []

/-- The loop over `m_modules` for one inliner module. -/
def requestModules (clr : Clr) (inlinerModule : ModuleId) (s : State) : State :=
  let results := s.modules.map (·.requestRejitForInlinersInModule clr inlinerModule)
  { s with
    modules := results.map Prod.fst
    enumerations := s.enumerations ++ results.flatMap Prod.snd }

/-- `RejitPreprocessor::AddNGenInlinerModule`. -/
def addNGenInlinerModule (clr : Clr) (moduleId : ModuleId) (s : State) : State :=
  let alreadyAdded := moduleId ∈ s.ngenInlinersModules
  let s := s.ngenInlinersModules.foldl (fun s moduleInliner => requestModules clr moduleInliner s) s
  if alreadyAdded then s
  else
    requestModules clr moduleId
      { s with ngenInlinersModules := s.ngenInlinersModules ++ [moduleId] }

/-- `RejitPreprocessor::GetOrAddModule`. -/
def getOrAddModule (moduleId : ModuleId) (s : State) : State :=
  if s.modules.any (·.moduleId = moduleId) then s
  else { s with modules := s.modules ++ [⟨moduleId, [], []⟩] }

/-- `RejitHandlerModule::CreateMethodIfNotExists`, of the handler module itself. -/
def RejitHandlerModule.createMethodIfNotExists (methodDef : MethodDef) (h : RejitHandlerModule) :
    RejitHandlerModule :=
  if methodDef ∈ h.methods then h else { h with methods := h.methods ++ [methodDef] }

/-- `CreateMethodIfNotExists` of the handler module for `moduleId`. -/
def createMethodIfNotExists (moduleId : ModuleId) (methodDef : MethodDef) (s : State) : State :=
  { s with modules := s.modules.map fun h =>
      if h.moduleId = moduleId then h.createMethodIfNotExists methodDef else h }

/-- The same handler modules and methods, listed in another order: the tables are
unordered maps. -/
def Rearranged (l l' : List RejitHandlerModule) : Prop :=
  ∃ m, l.Perm m ∧ List.Forall₂ (fun h h' : RejitHandlerModule => h'.moduleId = h.moduleId
    ∧ h'.methods.Perm h.methods
    ∧ h'.ngenProcessedInlinerModules = h.ngenProcessedInlinerModules) m l'

inductive Act
  | getOrAddModule (moduleId : ModuleId)
  | createMethodIfNotExists (moduleId : ModuleId) (methodDef : MethodDef)
  | addNGenInlinerModule (moduleId : ModuleId) (clr : Clr)
  | rearrange

inductive Step : State → Act → State → Prop
  | getOrAddModule {s : State} (moduleId : ModuleId) :
      Step s (.getOrAddModule moduleId) (getOrAddModule moduleId s)
  | createMethodIfNotExists {s : State} (moduleId : ModuleId) (methodDef : MethodDef) :
      Step s (.createMethodIfNotExists moduleId methodDef)
        (createMethodIfNotExists moduleId methodDef s)
  | addNGenInlinerModule {s : State} (moduleId : ModuleId) (clr : Clr) :
      Step s (.addNGenInlinerModule moduleId clr) (addNGenInlinerModule clr moduleId s)
  | rearrange {s : State} {modules : List RejitHandlerModule} :
      Rearranged s.modules modules → Step s .rearrange { s with modules := modules }

/-- The preprocessor, with registrations and calls in any order. -/
def preprocessor : System State Act where
  init := (· = .initial)
  step := Step

end AutoInstrumentation.NgenInliners
