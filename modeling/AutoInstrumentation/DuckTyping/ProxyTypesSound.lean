import AutoInstrumentation.DuckTyping.ProxyTypes

/-!
# AutoInstrumentation.DuckTyping.ProxyTypesSound

The cache of proxy types against the uncached computation.

The key of the cache and the fast path of a proxy definition leave the direction out. What a
request gets is what the first request for its pair of types got, in whatever direction.
-/

namespace AutoInstrumentation.DuckTyping

open Lib

variable {τ ι β π δ ω ε : Type}

/-! ### Uncached proxy types -/

theorem result_targetType (proxyDefinitionType targetType : τ)
    (created : Except (Thrown τ ε ⊕ Fault ε) (Option (π × δ))) :
    (result proxyDefinitionType targetType created).targetType = targetType := by
  fun_cases result proxyDefinitionType targetType created <;> rfl

theorem createTypeResult_targetType (R : Reflection τ ι β π δ ω ε) (q : Lookup τ) :
    (createTypeResult R q).targetType = q.targetType := by
  obtain ⟨direction, proxyDefinitionType, targetType⟩ := q
  unfold createTypeResult
  cases direction
  all_goals
    simp only []
    split <;> exact result_targetType proxyDefinitionType targetType _

/-! ### What is looked up -/

variable [DecidableEq τ]

/-- The first of the lookups of the pair of types of `q`, or `q` itself. -/
def firstLookup (asked : List (Lookup τ)) (q : Lookup τ) : Lookup τ :=
  (firstAsked Lookup.typesTuple asked q.typesTuple).getD q

/-- The cache and the fast paths hold the results of the first lookups. -/
structure Coherent (R : Reflection τ ι β π δ ω ε) (s : State τ π δ ε) (asked : List (Lookup τ)) :
    Prop where
  cache : Remembers Lookup.typesTuple (createTypeResult R) s.duckTypeCache asked
  fastPath : ∀ type result, s.fastPath type = some result →
    ∃ first, firstAsked Lookup.typesTuple asked (type, result.targetType) = some first
      ∧ result = createTypeResult R first

variable {R : Reflection τ ι β π δ ω ε} {s : State τ π δ ε} {asked : List (Lookup τ)}

theorem Coherent.initial : Coherent R .initial [] where
  cache := remembers_nil
  fastPath := nofun

/-- The lookup in the cache. -/
theorem Coherent.getOrAdd (h : Coherent R s asked) (q : Lookup τ) :
    (getOrAdd R s q).2 = createTypeResult R (firstLookup asked q)
      ∧ Coherent R (getOrAdd R s q).1 (asked ++ [q]) := by
  refine ⟨h.cache.getOrAdd_snd q, h.cache.getOrAdd_fst q, fun type result hresult => ?_⟩
  obtain ⟨first, hfirst, rfl⟩ := h.fastPath type result hresult
  exact ⟨first, firstAsked_append hfirst [q], rfl⟩

/-- What the first lookup of a pair is, once the pair was looked up. -/
theorem firstAsked_snoc_self (asked : List (Lookup τ)) (q : Lookup τ) :
    firstAsked Lookup.typesTuple (asked ++ [q]) q.typesTuple = some (firstLookup asked q) := by
  rw [firstAsked_snoc, if_pos rfl, firstLookup]
  cases firstAsked Lookup.typesTuple asked q.typesTuple <;> rfl

theorem typesTuple_firstLookup (asked : List (Lookup τ)) (q : Lookup τ) :
    (firstLookup asked q).typesTuple = q.typesTuple :=
  key_of_firstAsked (firstAsked_snoc_self asked q)

/-- The slow path, which may set the fast path. -/
theorem Coherent.slowPath (h : Coherent R s asked) (q : Lookup τ) :
    (slowPath R s q).2 = createTypeResult R (firstLookup asked q)
      ∧ Coherent R (slowPath R s q).1 (asked ++ [q]) := by
  obtain ⟨hresult, hcoherent⟩ := h.getOrAdd q
  unfold DuckTyping.slowPath
  simp only []
  split
  · exact ⟨hresult, hcoherent⟩
  · refine ⟨hresult, hcoherent.cache, fun type result hfast => ?_⟩
    by_cases htype : type = q.proxyDefinitionType
    · subst htype
      obtain rfl : (DuckTyping.getOrAdd R s q).2 = result := by simpa using hfast
      have htarget : (firstLookup asked q).targetType = q.targetType :=
        congrArg Prod.snd (typesTuple_firstLookup asked q)
      rw [hresult, createTypeResult_targetType, htarget]
      exact ⟨_, firstAsked_snoc_self asked q, rfl⟩
    · exact hcoherent.fastPath type result (by simpa [htype] using hfast)

/-- The lookup of `CreateCache`. -/
theorem Coherent.getFast (h : Coherent R s asked) (q : Lookup τ) :
    (getFast R s q).2 = createTypeResult R (firstLookup asked q)
      ∧ Coherent R (getFast R s q).1 (asked ++ [q]) := by
  unfold DuckTyping.getFast
  split
  case h_1 result hfast =>
    split
    case isTrue htarget =>
      obtain ⟨first, hfirst, rfl⟩ := h.fastPath _ _ hfast
      rw [htarget] at hfirst
      refine ⟨?_, h.cache.snoc_of_asked hfirst, fun type result hresult => ?_⟩
      · change _ = createTypeResult R ((firstAsked Lookup.typesTuple asked _).getD q)
        rw [Lookup.typesTuple, hfirst, Option.getD_some]
      · obtain ⟨first', hfirst', rfl⟩ := h.fastPath type result hresult
        exact ⟨first', firstAsked_append hfirst' [q], rfl⟩
    case isFalse => exact h.slowPath q
  case h_2 => exact h.slowPath q

/-! ### Requests -/

/-- What a request looks up, if it gets that far. -/
def Request.lookup (R : Reflection τ ι β π δ ω ε) : Request τ ι → Option (Lookup τ)
  | .getOrCreateProxyType proxyType targetType => some ⟨.forward, proxyType, targetType⟩
  | .getOrCreateReverseProxyType typeToDeriveFrom delegationType =>
      some ⟨.reverse, typeToDeriveFrom, delegationType⟩
  | .create proxyType instance' | .canCreate proxyType instance' => do
      return ⟨.forward, ← proxyType, R.getType (← instance')⟩
  | .createReverse typeToDeriveFrom delegationInstance => do
      return ⟨.reverse, ← typeToDeriveFrom, R.getType (← delegationInstance)⟩
  | .getProxy type targetType => some ⟨.forward, type, targetType⟩
  | .getReverseProxy type targetType => some ⟨.reverse, type, targetType⟩
  | .cacheCreate type instance' | .cacheCanCreate type instance' =>
      instance'.map fun instance' => ⟨.forward, type, R.getType instance'⟩
  | .cacheCreateFrom type original instance' =>
      instance'.map fun _ => ⟨.forward, type, original⟩
  | .cacheCreateReverse type instance' =>
      instance'.map fun instance' => ⟨.reverse, type, R.getType instance'⟩

/-- What a request makes of the result of its lookup. -/
def Request.reply (R : Reflection τ ι β π δ ω ε) (result : CreateTypeResult τ π δ ε) :
    Request τ ι → Answer τ π δ ω ε
  | .create _ (some instance') | .createReverse _ (some instance') =>
      .created (result.dynamicCreateInstance R instance')
  | .cacheCreate _ (some instance') | .cacheCreateFrom _ _ (some instance')
  | .cacheCreateReverse _ (some instance') => .created (result.createInstance R instance')
  | .canCreate _ _ | .cacheCanCreate _ _ => .canCreate result.canCreate
  | _ => .result result

/-- A request either looks nothing up, or replies with the result of its lookup. -/
theorem perform_cases (R : Reflection τ ι β π δ ω ε) (r : Request τ ι) :
    (r.lookup R = none ∧ ∃ answer, ∀ s, perform R s r = (s, answer))
      ∨ ∃ q, r.lookup R = some q ∧
        ((∀ s, perform R s r = ((getOrAdd R s q).1, r.reply R (getOrAdd R s q).2))
          ∨ ∀ s, perform R s r = ((getFast R s q).1, r.reply R (getFast R s q).2)) := by
  cases r with
  | getOrCreateProxyType p t => exact .inr ⟨_, rfl, .inl fun _ => rfl⟩
  | getOrCreateReverseProxyType p t => exact .inr ⟨_, rfl, .inl fun _ => rfl⟩
  | getProxy p t => exact .inr ⟨_, rfl, .inr fun _ => rfl⟩
  | getReverseProxy p t => exact .inr ⟨_, rfl, .inr fun _ => rfl⟩
  | create p i | canCreate p i | createReverse p i =>
      cases p with
      | none => exact .inl ⟨rfl, _, fun _ => rfl⟩
      | some p =>
          cases i with
          | none => exact .inl ⟨rfl, _, fun _ => rfl⟩
          | some i => exact .inr ⟨_, rfl, .inl fun _ => rfl⟩
  | cacheCreate p i | cacheCreateFrom p t i | cacheCanCreate p i | cacheCreateReverse p i =>
      cases i with
      | none => exact .inl ⟨rfl, _, fun _ => rfl⟩
      | some i => exact .inr ⟨_, rfl, .inr fun _ => rfl⟩

/-- The answer of an uncached computation: the one of a process that has seen no request. -/
def fresh (R : Reflection τ ι β π δ ω ε) (r : Request τ ι) : Answer τ π δ ω ε :=
  (perform R .initial r).2

/-- What a request is answered behind the lookups of earlier requests. -/
theorem Coherent.perform (h : Coherent R s asked) (r : Request τ ι) :
    (∀ q, r.lookup R = some q →
        (perform R s r).2 = r.reply R (createTypeResult R (firstLookup asked q)))
      ∧ (r.lookup R = none → (perform R s r).2 = fresh R r)
      ∧ Coherent R (perform R s r).1 (asked ++ (r.lookup R).toList) := by
  rcases perform_cases R r with ⟨hnone, answer, hperform⟩ | ⟨q, hsome, hperform⟩
  · rw [fresh, hperform, hperform, hnone]
    exact ⟨nofun, fun _ => rfl, by simpa using h⟩
  · rw [hsome]
    rcases hperform with hperform | hperform
    · obtain ⟨hresult, hcoherent⟩ := h.getOrAdd q
      rw [hperform, hresult]
      exact ⟨by rintro _ ⟨⟩; rfl, nofun, hcoherent⟩
    · obtain ⟨hresult, hcoherent⟩ := h.getFast q
      rw [hperform, hresult]
      exact ⟨by rintro _ ⟨⟩; rfl, nofun, hcoherent⟩

/-- The fresh answer is the reply to the uncached result of the lookup itself. -/
theorem fresh_eq {r : Request τ ι} {q : Lookup τ} (h : r.lookup R = some q) :
    fresh R r = r.reply R (createTypeResult R q) :=
  (Coherent.initial.perform r).1 q h

/-! ### Sequences of requests -/

/-- Behind the lookups `asked`: where the first lookup of the types of a request was in the
other direction, its result gives the same answer. -/
def Undisturbed (R : Reflection τ ι β π δ ω ε) (asked : List (Lookup τ))
    (requests : List (Request τ ι)) : Prop :=
  ∀ older r newer, requests = older ++ r :: newer → ∀ q, r.lookup R = some q →
    ∀ first,
      firstAsked Lookup.typesTuple (asked ++ older.filterMap (·.lookup R)) q.typesTuple
        = some first →
      first.direction ≠ q.direction →
      r.reply R (createTypeResult R first) = r.reply R (createTypeResult R q)

theorem undisturbed_cons {r : Request τ ι} {requests : List (Request τ ι)} :
    Undisturbed R asked (r :: requests) ↔
      (∀ q, r.lookup R = some q →
        ∀ first, firstAsked Lookup.typesTuple asked q.typesTuple = some first →
          first.direction ≠ q.direction →
          r.reply R (createTypeResult R first) = r.reply R (createTypeResult R q))
        ∧ Undisturbed R (asked ++ (r.lookup R).toList) requests := by
  have hasked : ∀ older : List (Request τ ι),
      asked ++ (r :: older).filterMap (·.lookup R)
        = asked ++ (r.lookup R).toList ++ older.filterMap (·.lookup R) := by
    intro older
    cases hr : r.lookup R <;> simp [hr]
  constructor
  · intro h
    refine ⟨fun q hq first hfirst => ?_, fun older r' newer heq q hq first hfirst => ?_⟩
    · exact h [] r requests rfl q hq first (by simpa using hfirst)
    · exact h (r :: older) r' newer (by rw [heq]; rfl) q hq first (by rwa [hasked])
  · rintro ⟨hr, hrequests⟩ older r' newer heq q hq first hfirst
    cases older with
    | nil =>
        obtain ⟨rfl, -⟩ := List.cons.inj heq
        exact hr q hq first (by simpa using hfirst)
    | cons r₀ older =>
        obtain ⟨rfl, hrest⟩ := List.cons.inj heq
        exact hrequests older r' newer hrest q hq first (by rwa [← hasked])

/-- A first lookup in the same direction is the lookup itself. -/
theorem eq_of_firstAsked {q first : Lookup τ}
    (h : firstAsked Lookup.typesTuple asked q.typesTuple = some first)
    (hdirection : first.direction = q.direction) : first = q := by
  have hkey : first.typesTuple = q.typesTuple := key_of_firstAsked h
  obtain ⟨direction, proxyDefinitionType, targetType⟩ := q
  obtain ⟨direction', proxyDefinitionType', targetType'⟩ := first
  obtain ⟨rfl, rfl⟩ := Prod.mk.inj hkey
  obtain rfl : direction' = direction := hdirection
  rfl

/-- The answer to one request is the fresh one if and only if the first lookup does not
disturb it. -/
theorem Coherent.perform_eq_fresh_iff (h : Coherent R s asked) (r : Request τ ι) :
    (DuckTyping.perform R s r).2 = fresh R r ↔
      ∀ q, r.lookup R = some q →
        ∀ first, firstAsked Lookup.typesTuple asked q.typesTuple = some first →
          first.direction ≠ q.direction →
          r.reply R (createTypeResult R first) = r.reply R (createTypeResult R q) := by
  obtain ⟨hsome, hnone, -⟩ := h.perform r
  cases hr : r.lookup R with
  | none => exact ⟨fun _ q hq => absurd hq nofun, fun _ => hnone hr⟩
  | some q =>
      rw [hsome q hr, fresh_eq hr]
      constructor
      · rintro heq _ ⟨⟩ first hfirst -
        rwa [firstLookup, hfirst, Option.getD_some] at heq
      · intro hq
        rw [firstLookup]
        cases hfirst : firstAsked Lookup.typesTuple asked q.typesTuple with
        | none => rfl
        | some first =>
            by_cases hdirection : first.direction = q.direction
            · rw [eq_of_firstAsked hfirst hdirection]
              rfl
            · exact hq q rfl first hfirst hdirection

theorem Coherent.answers_iff (h : Coherent R s asked) (requests : List (Request τ ι)) :
    answers R s requests = requests.map (fresh R) ↔ Undisturbed R asked requests := by
  induction requests generalizing s asked with
  | nil =>
      refine ⟨fun _ older r newer heq => ?_, fun _ => rfl⟩
      cases older <;> cases heq
  | cons r requests ih =>
      rw [answers, List.map_cons, List.cons.injEq, undisturbed_cons,
        h.perform_eq_fresh_iff r, ih (h.perform r).2.2]

/-- **When the history does not matter.** The answers to a sequence of requests are the fresh
ones if and only if every request whose types were first requested in the other direction has
the same answer in both directions. -/
theorem answers_eq_fresh_iff (R : Reflection τ ι β π δ ω ε) (requests : List (Request τ ι)) :
    answers R .initial requests = requests.map (fresh R) ↔ Undisturbed R [] requests :=
  Coherent.initial.answers_iff requests

/-- Where no pair of types is requested in both directions, the history does not matter. -/
theorem answers_eq_fresh_of_one_direction {requests : List (Request τ ι)}
    (h : ∀ r ∈ requests, ∀ r' ∈ requests, ∀ q q', r.lookup R = some q → r'.lookup R = some q' →
      q.typesTuple = q'.typesTuple → q.direction = q'.direction) :
    answers R .initial requests = requests.map (fresh R) := by
  refine (answers_eq_fresh_iff R requests).2 fun older r newer heq q hq first hfirst hne => ?_
  have hmem : first ∈ older.filterMap (·.lookup R) := List.mem_of_find?_eq_some hfirst
  obtain ⟨r', hr', hlookup⟩ := List.mem_filterMap.1 hmem
  have hdirection := h r' (by simp [heq, hr']) r (by simp [heq]) first q hlookup hq
    (key_of_firstAsked hfirst)
  exact absurd hdirection hne

/-! ### One pair of types in both directions -/

/-- A struct to copy the fields of a class into, and the class. -/
inductive Example
  | copy
  | target
  deriving DecidableEq

/-- Every member can be created. -/
def exampleReflection : Reflection Example Example Unit Direction Unit Unit String where
  isValueType type := type = .copy
  isInterface _ := false
  isAbstract _ := false
  fullName
    | .copy => "Copy"
    | .target => "Target"
  getType := id
  createTypeAndModuleBuilder _ _ := .ok ()
  createPropertiesFromStruct builder _ _ := .ok builder
  createProperties builder _ _ := .ok builder
  createMethods builder _ _ := .ok builder
  createReverseProxyProperties builder _ _ := .ok builder
  createReverseProxyMethods builder _ _ := .ok builder
  addCustomAttributes builder _ := .ok builder
  createTypeInfo _ := .ok .forward
  createStructCopyMethod _ _ _ _ := .ok ()
  getCreateProxyInstanceDelegate _ _ _ _ := .ok ()
  invoke _ _ := .ok ()

/-- Behind a forward request, a reverse one gets the forward proxy of a struct, where a struct
can not be derived from. -/
theorem answers_ne_fresh_of_both : ¬∀ requests : List (Request Example Example),
    answers exampleReflection .initial requests = requests.map (fresh exampleReflection) := by
  intro h
  have hboth := h [.getOrCreateProxyType .copy .target, .getOrCreateReverseProxyType .copy .target]
  have hsuccess := congrArg (fun l => l.map fun
    | .result result => result.success
    | _ => false) hboth
  exact absurd hsuccess (by decide)

end AutoInstrumentation.DuckTyping
