import AutoInstrumentation.RejitPreprocessor

/-!
# AutoInstrumentation.RejitPreprocessorSound

The loop over two enumerators enqueues the methods that are meant.

What each iterator has yet to visit is a list, and the batches disappear. Over the methods of
the name the loop enqueues those that pass the tests, in their order; over the explicit
implementations it stops at the first that does, and goes on with the methods of the name
from their beginning if there is none.
-/

namespace AutoInstrumentation.RejitPreprocessor

open Integration EnumeratorIterator

/-! ### The methods that are meant -/

/-- The signature of the method can be parsed, and it matches the target. -/
def matchesTarget (definition : IntegrationDefinition) (typeDef : TypeDef)
    (methodDef : MethodDef) : Bool :=
  match (typeDef.functionInfo methodDef).bind FunctionInfo.methodArguments with
  | none => false
  | some methodArguments =>
      !definition.isExactSignatureMatch
        || checkExactSignatureMatch methodArguments definition.targetMethod

/-- The name is one of the ignored ones, or that of a property accessor. -/
def isSpecialName (name : WString) : Bool :=
  wildcardIgnoredMethods.contains name
    || setterPrefix.isPrefixOf name || getterPrefix.isPrefixOf name

/-- The methods of a name that match the target. -/
def matchingMethods (definition : IntegrationDefinition) (typeDef : TypeDef) (name : WString) :
    List MethodDef :=
  typeDef.methods.filter fun m => typeDef.name m = name && matchesTarget definition typeDef m

/-- The methods that a definition selects of a type. -/
def selected (definition : IntegrationDefinition) (typeDef : TypeDef) : List MethodDef :=
  let target := definition.targetMethod
  if target.methodName = wildcardMethodName then
    typeDef.methods.filter fun m =>
      matchesTarget definition typeDef m && !isSpecialName (typeDef.name m)
  else if definition.isInterface then
    match matchingMethods definition typeDef
      (target.type.name ++ ['.'] ++ target.methodName) with
    | explicitMethod :: _ => [explicitMethod]
    | [] => matchingMethods definition typeDef target.methodName
  else matchingMethods definition typeDef target.methodName

/-- The methods are enqueued in their order, up to a shutdown. -/
def Handler.enqueueAll (h : Handler) : List MethodDef → Handler
  | [] => h
  | m :: ms =>
      match h.enqueue m with
      | none => h
      | some h => h.enqueueAll ms

/-- The methods that are enqueued before a shutdown. -/
def Handler.admitted (h : Handler) (ms : List MethodDef) : List MethodDef :=
  match h.shutdownAfter with
  | none => ms
  | some n => ms.take n

variable {definition : IntegrationDefinition} {typeDef : TypeDef}

/-- Outside the wildcard the tests are those of the signature. -/
theorem accepts_of_ne (h : definition.targetMethod.methodName ≠ wildcardMethodName)
    (m : MethodDef) : accepts definition typeDef m = matchesTarget definition typeDef m := by
  rw [accepts, matchesTarget]
  cases typeDef.functionInfo m with
  | none => rfl
  | some caller =>
      simp only [Option.bind_some]
      cases caller.methodArguments with
      | none => rfl
      | some methodArguments => exact if_neg fun hand => h hand.1

/-- Under the wildcard there is one more. -/
theorem accepts_wildcard (h : definition.targetMethod.methodName = wildcardMethodName)
    (m : MethodDef) :
    accepts definition typeDef m =
      (matchesTarget definition typeDef m && !isSpecialName (typeDef.name m)) := by
  rw [accepts, matchesTarget]
  cases hinfo : typeDef.functionInfo m with
  | none => rfl
  | some caller =>
      simp only [Option.bind_some]
      cases caller.methodArguments with
      | none => rfl
      | some methodArguments =>
          have hname := typeDef.functionInfo_name m caller hinfo
          have hspecial : (wildcardIgnoredMethods.contains caller.name
              ∨ setterPrefix.isPrefixOf caller.name ∨ getterPrefix.isPrefixOf caller.name)
              ↔ isSpecialName (typeDef.name m) = true := by
            rw [hname, isSpecialName, Bool.or_eq_true, Bool.or_eq_true, or_assoc]
          simp only [h, hspecial, true_and]
          cases isSpecialName (typeDef.name m) with
          | true => simp
          | false => simp

/-! ### The loop -/

theorem Handler.enqueueAll_cons_of_none {h : Handler} {m : MethodDef} (hm : h.enqueue m = none)
    (ms : List MethodDef) : h.enqueueAll (m :: ms) = h := by
  rw [Handler.enqueueAll, hm]

theorem Handler.enqueueAll_cons_of_some {h h' : Handler} {m : MethodDef}
    (hm : h.enqueue m = some h') (ms : List MethodDef) :
    h.enqueueAll (m :: ms) = h'.enqueueAll ms := by
  rw [Handler.enqueueAll, hm]

theorem Loop.visit_of_rejected {l : Loop} {m : MethodDef} (hderef : l.enumIterator.deref = some m)
    (hm : accepts definition typeDef m = false) :
    l.visit definition typeDef = some (.inl l.increment) := by
  simp [Loop.visit, hderef, hm]

theorem Loop.visit_of_none {l : Loop} {m : MethodDef} (hderef : l.enumIterator.deref = some m)
    (hm : accepts definition typeDef m = true) (hnone : l.handler.enqueue m = none) :
    l.visit definition typeDef = some (.inr l.handler) := by
  simp [Loop.visit, hderef, hm, hnone]

theorem Loop.visit_of_enqueued {l : Loop} {m : MethodDef} (hderef : l.enumIterator.deref = some m)
    (hm : accepts definition typeDef m = true) {h : Handler} (hsome : l.handler.enqueue m = some h) :
    l.visit definition typeDef =
      some (if l.explicitMode then .inr h else .inl { l with handler := h }.increment) := by
  simp only [Loop.visit, hderef, hm, hsome, Option.bind_eq_bind, Option.bind_some, if_true]
  split
  · rfl
  · rfl

/-- The increment over the methods. -/
theorem Loop.increment_methods {l : Loop} (hvalid : l.enumIterator.Valid)
    (hsource : l.enumIterator.enumerator = .methods) {m : MethodDef} {ms : List MethodDef}
    (hpending : l.enumIterator.pending l.methods = m :: ms) :
    ∃ l', l.increment = l' ∧ l'.enumIterator.Valid ∧ l'.enumIterator.enumerator = .methods
      ∧ l'.explicitMode = l.explicitMode ∧ l'.handler = l.handler
      ∧ l'.enumIterator.pending l'.methods = ms := by
  obtain ⟨-, hvalid', hsource', hpending'⟩ := l.enumIterator.visit hvalid hpending
  have heq : l.increment = { l with
      enumIterator := (l.enumIterator.increment l.methods).1
      methods := (l.enumIterator.increment l.methods).2 } := by
    simp only [Loop.increment, hsource]
  exact ⟨_, heq, hvalid', hsource'.trans hsource, rfl, rfl, hpending'⟩

/-- The increment over the explicit implementations. -/
theorem Loop.increment_explicit {l : Loop} (hvalid : l.enumIterator.Valid)
    (hsource : l.enumIterator.enumerator = .explicitInterfaceMethods) {m : MethodDef}
    {ms : List MethodDef}
    (hpending : l.enumIterator.pending l.explicitInterfaceMethods = m :: ms) :
    ∃ l', l.increment = l' ∧ l'.enumIterator.Valid
      ∧ l'.enumIterator.enumerator = .explicitInterfaceMethods
      ∧ l'.explicitMode = l.explicitMode ∧ l'.handler = l.handler ∧ l'.methods = l.methods
      ∧ l'.enumIterator.pending l'.explicitInterfaceMethods = ms := by
  obtain ⟨-, hvalid', hsource', hpending'⟩ := l.enumIterator.visit hvalid hpending
  have heq : l.increment = { l with
      enumIterator := (l.enumIterator.increment l.explicitInterfaceMethods).1
      explicitInterfaceMethods :=
        (l.enumIterator.increment l.explicitInterfaceMethods).2 } := by
    simp only [Loop.increment, hsource]
  exact ⟨_, heq, hvalid', hsource'.trans hsource, rfl, rfl, rfl, hpending'⟩

theorem Loop.run_of_inl {iterate : Bool} {l l' : Loop}
    (h : l.round definition typeDef iterate = some (.inl l')) (fuel : ℕ) :
    l.run definition typeDef iterate (fuel + 1) = l'.run definition typeDef iterate fuel := by
  rw [Loop.run, h]
  rfl

theorem Loop.run_of_inr {iterate : Bool} {l : Loop} {handler : Handler}
    (h : l.round definition typeDef iterate = some (.inr handler)) (fuel : ℕ) :
    l.run definition typeDef iterate (fuel + 1) = some handler := by
  rw [Loop.run, h]
  rfl

/-- **The methods of the name.** The loop enqueues those that pass the tests, from a round on
that visits one of them. -/
theorem Loop.run_of_visit {iterate : Bool} {start l : Loop} {m : MethodDef} {ms : List MethodDef}
    {fuel : ℕ} (hround : start.round definition typeDef iterate = l.visit definition typeDef)
    (hvalid : l.enumIterator.Valid) (hsource : l.enumIterator.enumerator = .methods)
    (hmode : l.explicitMode = false) (hpending : l.enumIterator.pending l.methods = m :: ms)
    (hrest : ∀ l' : Loop, l'.enumIterator.Valid → l'.enumIterator.enumerator = .methods →
      l'.explicitMode = false → l'.enumIterator.pending l'.methods = ms →
        l'.run definition typeDef iterate fuel =
          some (l'.handler.enqueueAll (ms.filter (accepts definition typeDef)))) :
    start.run definition typeDef iterate (fuel + 1) =
      some (l.handler.enqueueAll ((m :: ms).filter (accepts definition typeDef))) := by
  obtain ⟨hderef, -⟩ := l.enumIterator.visit hvalid hpending
  rw [List.filter_cons]
  cases hm : accepts definition typeDef m with
  | false =>
      obtain ⟨l', heq, hvalid', hsource', hmode', hhandler, hpending'⟩ :=
        l.increment_methods hvalid hsource hpending
      rw [Loop.visit_of_rejected hderef hm, heq] at hround
      rw [Loop.run_of_inl hround, if_neg Bool.false_ne_true, ← hhandler]
      exact hrest l' hvalid' hsource' (hmode'.trans hmode) hpending'
  | true =>
      rw [if_pos rfl]
      cases henqueue : l.handler.enqueue m with
      | none =>
          rw [Loop.visit_of_none hderef hm henqueue] at hround
          rw [Loop.run_of_inr hround, Handler.enqueueAll_cons_of_none henqueue]
      | some h =>
          obtain ⟨l', heq, hvalid', hsource', hmode', hhandler, hpending'⟩ :=
            Loop.increment_methods (l := { l with handler := h }) hvalid hsource hpending
          rw [Loop.visit_of_enqueued hderef hm henqueue, if_neg (by rw [hmode]; decide), heq]
            at hround
          rw [Loop.run_of_inl hround, Handler.enqueueAll_cons_of_some henqueue,
            show h = l'.handler from hhandler.symm]
          exact hrest l' hvalid' hsource' (hmode'.trans hmode) hpending'

/-- In the mode of the methods a round is a visit, up to their end. -/
theorem Loop.run_methods (iterate : Bool) {l : Loop} (hvalid : l.enumIterator.Valid)
    (hsource : l.enumIterator.enumerator = .methods) (hmode : l.explicitMode = false)
    {ms : List MethodDef} (hpending : l.enumIterator.pending l.methods = ms) {fuel : ℕ}
    (hfuel : ms.length < fuel) :
    l.run definition typeDef iterate fuel =
      some (l.handler.enqueueAll (ms.filter (accepts definition typeDef))) := by
  obtain ⟨fuel, rfl⟩ : ∃ k, fuel = k + 1 := ⟨fuel - 1, by omega⟩
  have hend := differs_stop_iff hvalid l.methods
  rw [hsource, hpending] at hend
  induction ms generalizing l fuel with
  | nil =>
      have hdone : l.enumIterator.differs (.stop .methods) = false := by simpa using hend
      rw [Loop.run, Loop.round, hdone]
      rfl
  | cons m ms ih =>
      have hmore : l.enumIterator.differs (.stop .methods) = true := by simpa using hend
      have hother : l.enumIterator.differs (.stop .explicitInterfaceMethods) = true := by
        refine differs_stop_of_ne ?_
        rw [hsource]
        decide
      have hround : l.round definition typeDef iterate = l.visit definition typeDef := by
        rw [Loop.round, hmore, hother]
        cases iterate with
        | true => rfl
        | false => rfl
      rw [List.length_cons] at hfuel
      obtain ⟨fuel, rfl⟩ : ∃ k, fuel = k + 1 := ⟨fuel - 1, by omega⟩
      refine Loop.run_of_visit hround hvalid hsource hmode hpending ?_
      intro l' hvalid' hsource' hmode' hpending'
      have hend' := differs_stop_iff hvalid' l'.methods
      rw [hsource', hpending'] at hend'
      exact ih hvalid' hsource' hmode' hpending' fuel (by omega) hend'

/-- **The explicit implementations.** The loop enqueues the first that passes the tests, and
otherwise those of the methods that do. -/
theorem Loop.run_explicit {l : Loop} (hvalid : l.enumIterator.Valid)
    (hsource : l.enumIterator.enumerator = .explicitInterfaceMethods)
    (hmode : l.explicitMode = true) {ms : List MethodDef}
    (hpending : l.enumIterator.pending l.explicitInterfaceMethods = ms) {fuel : ℕ}
    (hfuel : ms.length + l.methods.elements.length < fuel) :
    l.run definition typeDef true fuel =
      some (l.handler.enqueueAll (match ms.filter (accepts definition typeDef) with
        | explicitMethod :: _ => [explicitMethod]
        | [] => l.methods.elements.filter (accepts definition typeDef))) := by
  obtain ⟨fuel, rfl⟩ : ∃ k, fuel = k + 1 := ⟨fuel - 1, by omega⟩
  have hother : l.enumIterator.differs (.stop .methods) = true := by
    refine differs_stop_of_ne ?_
    rw [hsource]
    decide
  have hend := differs_stop_iff hvalid l.explicitInterfaceMethods
  rw [hsource, hpending] at hend
  induction ms generalizing l fuel with
  | nil =>
      have hdone : l.enumIterator.differs (.stop .explicitInterfaceMethods) = false := by
        simpa using hend
      obtain ⟨hvalid', hpending'⟩ := fetch_spec Source.methods l.methods
      have hround : l.round definition typeDef true =
          if !(fetch Source.methods l.methods).1.differs (.stop .methods) then
            some (.inr l.handler)
          else Loop.visit definition typeDef { l with
            enumIterator := (fetch Source.methods l.methods).1
            methods := (fetch Source.methods l.methods).2
            explicitMode := false } := by
        rw [Loop.round, hother, hdone]
        rfl
      have hend' := differs_stop_iff hvalid' (fetch Source.methods l.methods).2
      rw [hpending', fetch_enumerator] at hend'
      cases helements : l.methods.elements with
      | nil =>
          -- The second enumerator is empty as well.
          have hdone' : (fetch Source.methods l.methods).1.differs (.stop .methods) = false := by
            simpa [helements] using hend'
          rw [hdone'] at hround
          rw [Loop.run_of_inr hround]
          rfl
      | cons m ms =>
          have hmore : (fetch Source.methods l.methods).1.differs (.stop .methods) = true := by
            simpa [helements] using hend'
          rw [hmore, Bool.not_true, if_neg Bool.false_ne_true] at hround
          refine Loop.run_of_visit (l := { l with
            enumIterator := (fetch Source.methods l.methods).1
            methods := (fetch Source.methods l.methods).2
            explicitMode := false }) hround hvalid' rfl rfl (hpending'.trans helements) ?_
          intro l' hvalid hsource hmode hpending
          rw [helements, List.length_nil, List.length_cons] at hfuel
          exact Loop.run_methods true hvalid hsource hmode hpending (by omega)
  | cons m ms ih =>
      have hmore : l.enumIterator.differs (.stop .explicitInterfaceMethods) = true := by
        simpa using hend
      have hround : l.round definition typeDef true = l.visit definition typeDef := by
        rw [Loop.round, hother, hmore]
        rfl
      obtain ⟨hderef, -⟩ := l.enumIterator.visit hvalid hpending
      rw [List.filter_cons]
      cases hm : accepts definition typeDef m with
      | true =>
          rw [if_pos rfl]
          cases henqueue : l.handler.enqueue m with
          | none =>
              rw [Loop.visit_of_none hderef hm henqueue] at hround
              rw [Loop.run_of_inr hround]
              exact congrArg some (Handler.enqueueAll_cons_of_none henqueue []).symm
          | some h =>
              rw [Loop.visit_of_enqueued hderef hm henqueue, if_pos hmode] at hround
              rw [Loop.run_of_inr hround]
              exact congrArg some (Handler.enqueueAll_cons_of_some henqueue []).symm
      | false =>
          obtain ⟨l', heq, hvalid', hsource', hmode', hhandler, hmethods, hpending'⟩ :=
            l.increment_explicit hvalid hsource hpending
          rw [Loop.visit_of_rejected hderef hm, heq] at hround
          rw [Loop.run_of_inl hround, if_neg Bool.false_ne_true, ← hhandler, ← hmethods]
          rw [List.length_cons, ← hmethods] at hfuel
          obtain ⟨fuel, rfl⟩ : ∃ k, fuel = k + 1 := ⟨fuel - 1, by omega⟩
          have hend' := differs_stop_iff hvalid' l'.explicitInterfaceMethods
          rw [hsource', hpending'] at hend'
          refine ih hvalid' hsource' (hmode'.trans hmode) hpending' fuel (by omega) ?_ hend'
          refine differs_stop_of_ne ?_
          rw [hsource']
          decide

/-! ### The result -/

theorem Handler.admitted_nil (h : Handler) : h.admitted [] = [] := by
  rw [Handler.admitted]
  cases h.shutdownAfter with
  | none => rfl
  | some n => exact List.take_nil

theorem Handler.rejitRequests_enqueueAll (h : Handler) (ms : List MethodDef) :
    (h.enqueueAll ms).rejitRequests = h.rejitRequests ++ h.admitted ms := by
  induction ms generalizing h with
  | nil =>
      rw [Handler.admitted_nil, List.append_nil]
      rfl
  | cons m ms ih =>
      obtain ⟨shutdownAfter, hasMetadata, methods, rejitRequests⟩ := h
      match shutdownAfter with
      | none =>
          refine (ih _).trans ?_
          simp [Handler.admitted]
      | some 0 => exact (List.append_nil _).symm
      | some (n + 1) =>
          refine (ih _).trans ?_
          simp [Handler.admitted]

theorem Handler.mem_methods_enqueueAll (h : Handler) (ms : List MethodDef) (m : MethodDef) :
    m ∈ (h.enqueueAll ms).methods ↔ m ∈ h.methods ∨ m ∈ h.admitted ms := by
  have hadd (methods : List MethodDef) (m' : MethodDef) :
      m ∈ (if methods.contains m' then methods else methods ++ [m']) ↔ m ∈ methods ∨ m = m' := by
    split
    · next hin =>
        refine ⟨.inl, ?_⟩
        rintro (hm | rfl)
        · exact hm
        · exact List.contains_iff_mem.mp hin
    · simp
  induction ms generalizing h with
  | nil =>
      simp [Handler.admitted_nil, Handler.enqueueAll]
  | cons m' ms ih =>
      obtain ⟨shutdownAfter, hasMetadata, methods, rejitRequests⟩ := h
      match shutdownAfter with
      | none =>
          refine (ih _).trans ((or_congr_left (hadd methods m')).trans ?_)
          simp [Handler.admitted, or_assoc]
      | some 0 => simp [Handler.admitted, Handler.enqueueAll, Handler.enqueue]
      | some (n + 1) =>
          refine (ih _).trans ((or_congr_left (hadd methods m')).trans ?_)
          simp [Handler.admitted, or_assoc]

theorem selected_nodup (definition : IntegrationDefinition) (typeDef : TypeDef) :
    (selected definition typeDef).Nodup := by
  have hmatching (n : WString) : (matchingMethods definition typeDef n).Nodup :=
    typeDef.nodup.filter _
  rw [selected]
  split
  · exact typeDef.nodup.filter _
  · split
    · split
      · exact List.pairwise_singleton _ _
      · exact hmatching _
    · exact hmatching _

/-- The loop is the enqueuing of the selected methods. -/
theorem processTypeDefForRejit_eq (definition : IntegrationDefinition) (typeDef : TypeDef)
    (handler : Handler) :
    processTypeDefForRejit definition typeDef handler =
      some (handler.enqueueAll (selected definition typeDef)) := by
  have hlength (n : WString) :
      (typeDef.enumMethodsWithName n).elements.length ≤ typeDef.methods.length := by
    rw [typeDef.enumMethodsWithName_elements]
    exact List.length_filter_le ..
  rw [processTypeDefForRejit, selected]
  by_cases hwildcard : definition.targetMethod.methodName = wildcardMethodName
  · obtain ⟨hvalid, hpending⟩ := fetch_spec Source.methods typeDef.enumMethods
    simp only [hwildcard, decide_true, Bool.not_true, Bool.and_false, Bool.false_eq_true, if_false,
      if_true]
    rw [Loop.run_methods false hvalid rfl rfl hpending
      (by rw [typeDef.enumMethods_elements]; omega), typeDef.enumMethods_elements]
    refine congrArg (fun ms => some (handler.enqueueAll ms)) ?_
    exact List.filter_congr fun m _ => accepts_wildcard hwildcard m
  · have hmatching (n : WString) :
        (typeDef.enumMethodsWithName n).elements.filter (accepts definition typeDef) =
          matchingMethods definition typeDef n := by
      rw [typeDef.enumMethodsWithName_elements, List.filter_filter, matchingMethods]
      refine List.filter_congr fun m _ => ?_
      rw [accepts_of_ne hwildcard, Bool.and_comm]
    cases hinterface : definition.isInterface with
    | true =>
        obtain ⟨hvalid, hpending⟩ := fetch_spec Source.explicitInterfaceMethods
          (typeDef.enumMethodsWithName (definition.targetMethod.type.name ++ ['.']
            ++ definition.targetMethod.methodName))
        have hfirst := hlength (definition.targetMethod.type.name ++ ['.']
          ++ definition.targetMethod.methodName)
        have hsecond := hlength definition.targetMethod.methodName
        simp only [hwildcard, decide_false, Bool.not_false, Bool.and_true, if_true, if_false]
        rw [Loop.run_explicit hvalid rfl rfl hpending (Nat.lt_succ_of_le (by
          change _ + (typeDef.enumMethodsWithName definition.targetMethod.methodName).elements.length
            ≤ _
          omega)), hmatching, hmatching]
    | false =>
        obtain ⟨hvalid, hpending⟩ := fetch_spec Source.methods
          (typeDef.enumMethodsWithName definition.targetMethod.methodName)
        have hsecond := hlength definition.targetMethod.methodName
        simp only [hwildcard, decide_false, Bool.not_false, Bool.false_and, Bool.false_eq_true,
          if_false]
        rw [Loop.run_methods false hvalid rfl rfl hpending (by omega), hmatching]

end AutoInstrumentation.RejitPreprocessor
