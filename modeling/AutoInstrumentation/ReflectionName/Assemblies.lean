import AutoInstrumentation.ReflectionName.Grammar

/-!
# AutoInstrumentation.ReflectionName.Assemblies

The assembly qualifications in a type name, and type names in which they are changed.

`assemblies` lists the qualifications in the order of their references, and
`mapAssemblies` changes each of them and leaves the rest of the name as it is. The shape
of the name stays (`bracketDepth_mapAssemblies`, `quoteFree_mapAssemblies`), and it stays
a well-formed name if the qualifications do. `withVersion` is the change that matters: a
qualification that asks for another version.
-/

namespace AutoInstrumentation.ReflectionName

open Lib

mutual

/-- The qualifications, in the order of the references. -/
def TypeName.assemblies : TypeName → List Qualification
  | .mk _ _ arguments _ assembly _ => argumentsAssemblies arguments ++ assembly.toList

def Argument.assemblies : Argument → List Qualification
  | .bare type => type.assemblies
  | .bracketed _ type _ => type.assemblies

def argumentsAssemblies : List Argument → List Qualification
  | [] => []
  | argument :: arguments => argument.assemblies ++ argumentsAssemblies arguments

end

variable (f : Qualification → Qualification)

mutual

/-- The type name with each qualification changed by `f`. -/
def TypeName.mapAssemblies : TypeName → TypeName
  | .mk before names arguments suffixes assembly behind =>
      .mk before names (mapArguments arguments) suffixes (assembly.map f) behind

def Argument.mapAssemblies : Argument → Argument
  | .bare type => .bare type.mapAssemblies
  | .bracketed before type behind => .bracketed before type.mapAssemblies behind

def mapArguments : List Argument → List Argument
  | [] => []
  | argument :: arguments => argument.mapAssemblies :: mapArguments arguments

end

/-! ### The qualifications of the new name -/

mutual

@[simp] theorem assemblies_mapAssemblies : (t : TypeName) →
    (t.mapAssemblies f).assemblies = t.assemblies.map f
  | .mk _ _ arguments _ assembly _ => by
      have harguments := argumentsAssemblies_map arguments
      cases assembly with
      | none => simp [TypeName.mapAssemblies, TypeName.assemblies, harguments]
      | some q => simp [TypeName.mapAssemblies, TypeName.assemblies, harguments]

theorem argument_assemblies_map : (a : Argument) →
    (a.mapAssemblies f).assemblies = a.assemblies.map f
  | .bare type => by
      rw [Argument.mapAssemblies, Argument.assemblies, Argument.assemblies]
      exact assemblies_mapAssemblies type
  | .bracketed _ type _ => by
      rw [Argument.mapAssemblies, Argument.assemblies, Argument.assemblies]
      exact assemblies_mapAssemblies type

theorem argumentsAssemblies_map : (arguments : List Argument) →
    argumentsAssemblies (mapArguments f arguments) = (argumentsAssemblies arguments).map f
  | [] => rfl
  | argument :: arguments => by
      rw [mapArguments, argumentsAssemblies, argumentsAssemblies, argument_assemblies_map argument,
        argumentsAssemblies_map arguments, List.map_append]

end

/-! ### The shape of the new name -/

theorem isEmpty_mapArguments (arguments : List Argument) :
    (mapArguments f arguments).isEmpty = arguments.isEmpty := by
  cases arguments with
  | nil => rfl
  | cons argument arguments => rfl

mutual

@[simp] theorem bracketDepth_mapAssemblies : (t : TypeName) →
    (t.mapAssemblies f).bracketDepth = t.bracketDepth
  | .mk _ _ arguments _ _ _ => by
      rw [TypeName.mapAssemblies, TypeName.bracketDepth, TypeName.bracketDepth,
        isEmpty_mapArguments, argumentsBracketDepth_map arguments]

theorem argument_bracketDepth_map : (a : Argument) →
    (a.mapAssemblies f).bracketDepth = a.bracketDepth
  | .bare type => by
      rw [Argument.mapAssemblies, Argument.bracketDepth, Argument.bracketDepth]
      exact bracketDepth_mapAssemblies type
  | .bracketed _ type _ => by
      rw [Argument.mapAssemblies, Argument.bracketDepth, Argument.bracketDepth]
      exact bracketDepth_mapAssemblies type

theorem argumentsBracketDepth_map : (arguments : List Argument) →
    argumentsBracketDepth (mapArguments f arguments) = argumentsBracketDepth arguments
  | [] => rfl
  | argument :: arguments => by
      rw [mapArguments, argumentsBracketDepth, argumentsBracketDepth,
        argument_bracketDepth_map argument, argumentsBracketDepth_map arguments]

end

mutual

@[simp] theorem quoteFree_mapAssemblies : (t : TypeName) →
    (t.mapAssemblies f).quoteFree = t.quoteFree
  | .mk _ _ arguments _ _ _ => by
      rw [TypeName.mapAssemblies, TypeName.quoteFree, TypeName.quoteFree,
        argumentsQuoteFree_map arguments]

theorem argument_quoteFree_map : (a : Argument) → (a.mapAssemblies f).quoteFree = a.quoteFree
  | .bare type => by
      rw [Argument.mapAssemblies, Argument.quoteFree, Argument.quoteFree]
      exact quoteFree_mapAssemblies type
  | .bracketed _ type _ => by
      rw [Argument.mapAssemblies, Argument.quoteFree, Argument.quoteFree]
      exact quoteFree_mapAssemblies type

theorem argumentsQuoteFree_map : (arguments : List Argument) →
    argumentsQuoteFree (mapArguments f arguments) = argumentsQuoteFree arguments
  | [] => rfl
  | argument :: arguments => by
      rw [mapArguments, argumentsQuoteFree, argumentsQuoteFree, argument_quoteFree_map argument,
        argumentsQuoteFree_map arguments]

end

mutual

/-- Escaped quotes in bare simple names, found through the list of qualifications. -/
theorem hasBareQuote_eq : (t : TypeName) →
    t.hasBareQuote = t.assemblies.any Qualification.hasBareQuote
  | .mk _ _ arguments _ assembly _ => by
      have harguments := argumentsHaveBareQuote_eq arguments
      cases assembly with
      | none => simp [TypeName.hasBareQuote, TypeName.assemblies, harguments]
      | some q => simp [TypeName.hasBareQuote, TypeName.assemblies, harguments]

theorem argument_hasBareQuote_eq : (a : Argument) →
    a.hasBareQuote = a.assemblies.any Qualification.hasBareQuote
  | .bare type => by
      rw [Argument.hasBareQuote, Argument.assemblies]
      exact hasBareQuote_eq type
  | .bracketed _ type _ => by
      rw [Argument.hasBareQuote, Argument.assemblies]
      exact hasBareQuote_eq type

theorem argumentsHaveBareQuote_eq : (arguments : List Argument) →
    argumentsHaveBareQuote arguments
      = (argumentsAssemblies arguments).any Qualification.hasBareQuote
  | [] => rfl
  | argument :: arguments => by
      rw [argumentsHaveBareQuote, argumentsAssemblies, argument_hasBareQuote_eq argument,
        argumentsHaveBareQuote_eq arguments, List.any_append]

end

theorem hasBareQuote_mapAssemblies (hf : ∀ q, (f q).hasBareQuote = q.hasBareQuote)
    (t : TypeName) : (t.mapAssemblies f).hasBareQuote = t.hasBareQuote := by
  have hcomp : Qualification.hasBareQuote ∘ f = Qualification.hasBareQuote := funext hf
  rw [hasBareQuote_eq, hasBareQuote_eq, assemblies_mapAssemblies, List.any_map, hcomp]

/-! ### Well-formed names -/

mutual

/-- Well-formed names have well-formed qualifications. -/
theorem wellFormed_assemblies : (t : TypeName) → t.wellFormed = true →
    ∀ q ∈ t.assemblies, q.wellFormed = true
  | .mk _ _ arguments _ assembly _, h => by
      simp only [TypeName.wellFormed, Bool.and_eq_true] at h
      obtain ⟨⟨⟨-, harguments⟩, hassembly⟩, -⟩ := h
      intro q hq
      rw [TypeName.assemblies, List.mem_append] at hq
      rcases hq with hq | hq
      · exact arguments_wellFormed_assemblies arguments harguments q hq
      · obtain rfl := Option.mem_toList.mp hq
        exact hassembly

theorem argument_wellFormed_assemblies : (a : Argument) → a.wellFormed = true →
    ∀ q ∈ a.assemblies, q.wellFormed = true
  | .bare (.mk before names arguments suffixes assembly behind), h => by
      obtain ⟨-, h⟩ := Bool.and_eq_true_iff.mp h
      exact wellFormed_assemblies (.mk before names arguments suffixes assembly behind) h
  | .bracketed _ type _, h => by
      simp only [Argument.wellFormed, Bool.and_eq_true] at h
      exact wellFormed_assemblies type h.1.2

theorem arguments_wellFormed_assemblies : (arguments : List Argument) →
    argumentsWellFormed arguments = true →
    ∀ q ∈ argumentsAssemblies arguments, q.wellFormed = true
  | [], _ => by
      intro q hq
      cases hq
  | argument :: arguments, h => by
      obtain ⟨hargument, harguments⟩ := Bool.and_eq_true_iff.mp h
      intro q hq
      rw [argumentsAssemblies, List.mem_append] at hq
      rcases hq with hq | hq
      · exact argument_wellFormed_assemblies argument hargument q hq
      · exact arguments_wellFormed_assemblies arguments harguments q hq

end

mutual

/-- A name with well-formed qualifications in place of its own is well formed. -/
theorem wellFormed_mapAssemblies (hf : ∀ q, q.wellFormed = true → (f q).wellFormed = true) :
    (t : TypeName) → t.wellFormed = true → (t.mapAssemblies f).wellFormed = true
  | .mk _ _ arguments _ assembly _, h => by
      simp only [TypeName.wellFormed, Bool.and_eq_true] at h
      obtain ⟨⟨⟨hbefore, harguments⟩, hassembly⟩, hbehind⟩ := h
      have hmap : (assembly.map f).all Qualification.wellFormed = true := by
        cases assembly with
        | none => rfl
        | some q => exact hf q hassembly
      simp only [TypeName.mapAssemblies, TypeName.wellFormed, Bool.and_eq_true]
      exact ⟨⟨⟨hbefore, wellFormed_mapArguments hf arguments harguments⟩, hmap⟩, hbehind⟩

theorem argument_wellFormed_map (hf : ∀ q, q.wellFormed = true → (f q).wellFormed = true) :
    (a : Argument) → a.wellFormed = true → (a.mapAssemblies f).wellFormed = true
  | .bare (.mk before names arguments suffixes assembly behind), h => by
      obtain ⟨hnone, h⟩ := Bool.and_eq_true_iff.mp h
      have htype := wellFormed_mapAssemblies hf
        (.mk before names arguments suffixes assembly behind) h
      rw [TypeName.mapAssemblies] at htype
      rw [Argument.mapAssemblies, TypeName.mapAssemblies, Argument.wellFormed, htype,
        Option.isNone_map, hnone]
      rfl
  | .bracketed _ type _, h => by
      simp only [Argument.wellFormed, Bool.and_eq_true] at h
      simp only [Argument.mapAssemblies, Argument.wellFormed, Bool.and_eq_true]
      exact ⟨⟨h.1.1, wellFormed_mapAssemblies hf type h.1.2⟩, h.2⟩

theorem wellFormed_mapArguments (hf : ∀ q, q.wellFormed = true → (f q).wellFormed = true) :
    (arguments : List Argument) → argumentsWellFormed arguments = true →
    argumentsWellFormed (mapArguments f arguments) = true
  | [], _ => rfl
  | argument :: arguments, h => by
      obtain ⟨hargument, harguments⟩ := Bool.and_eq_true_iff.mp h
      rw [mapArguments, argumentsWellFormed, argument_wellFormed_map hf argument hargument,
        wellFormed_mapArguments hf arguments harguments]
      rfl

end

/-! ### Versions -/

/-- Items that stand for themselves. -/
def plainItems (text : List Byte) : List Item := text.map .plain

@[simp] theorem itemsText_plainItems (text : List Byte) : itemsText (plainItems text) = text := by
  induction text with
  | nil => rfl
  | cons c text ih =>
      show c :: itemsText (plainItems text) = c :: text
      rw [ih]

/-- Text that can be written anywhere without escapes. -/
def isWord (text : List Byte) : Bool :=
  text ≠ [] && text.all fun c => Entry.bareOk c && !isAsciiSpace c && c != equals

/-- What the first version property says. -/
def versionText (properties : List Property) : Option (List Byte) :=
  (properties.find? Property.isVersion).map fun p => itemsText p.value.items

/-- The property with another value, in the quotes of its own. -/
def Property.withValue (p : Property) (text : List Byte) : Property :=
  { p with value := { p.value with items := plainItems text } }

/-- The first version property changed. -/
def setVersion (version : List Byte) : List Property → List Property
  | [] => []
  | p :: properties =>
      if p.isVersion then p.withValue version :: properties
      else p :: setVersion version properties

/-- `, Version=` and the version. -/
def versionProperty (version : List Byte) : Property where
  beforeComma := []
  beforeKey := [0x20]
  key := ⟨none, plainItems versionKey⟩
  beforeEquals := []
  beforeValue := []
  value := ⟨none, plainItems version⟩

/-- The qualification with another version, which is put behind the name if there was
none. -/
def Qualification.withVersion (q : Qualification) (version : List Byte) : Qualification :=
  if q.properties.any Property.isVersion then
    { q with properties := setVersion version q.properties }
  else { q with properties := versionProperty version :: q.properties }

@[simp] theorem withVersion_name (q : Qualification) (version : List Byte) :
    (q.withVersion version).name = q.name := by
  rw [Qualification.withVersion]
  split <;> rfl

@[simp] theorem isVersion_withValue (p : Property) (text : List Byte) :
    (p.withValue text).isVersion = p.isVersion := rfl

theorem isVersion_versionProperty (version : List Byte) :
    (versionProperty version).isVersion = true := by
  show equalsIgnoreAsciiCase ((plainItems versionKey).map Item.value) versionKey = true
  decide

theorem versionText_setVersion (version : List Byte) {properties : List Property}
    (h : properties.any Property.isVersion = true) :
    versionText (setVersion version properties) = some version := by
  induction properties with
  | nil => cases h
  | cons p properties ih =>
      by_cases hp : p.isVersion = true
      · have hset : (p.withValue version).isVersion = true := hp
        simp only [versionText]
        rw [setVersion, if_pos hp, List.find?_cons_of_pos hset]
        simp [Property.withValue]
      · have hrest : properties.any Property.isVersion = true := by simpa [hp] using h
        have hset := ih hrest
        simp only [versionText] at hset ⊢
        rw [setVersion, if_neg hp, List.find?_cons_of_neg hp]
        exact hset

/-- The version that was set is the one that is asked for. -/
theorem versionText_withVersion (q : Qualification) (version : List Byte) :
    versionText (q.withVersion version).properties = some version := by
  rw [Qualification.withVersion]
  split
  · rename_i h
    exact versionText_setVersion version h
  · simp only [versionText]
    rw [List.find?_cons_of_pos (isVersion_versionProperty version)]
    simp [versionProperty]

/-! ### Well-formed versions -/

theorem isWord_char {text : List Byte} (h : isWord text = true) {c : Byte} (hc : c ∈ text) :
    Entry.bareOk c = true ∧ isAsciiSpace c = false ∧ c ≠ equals := by
  have hall := List.all_eq_true.mp (Bool.and_eq_true_iff.mp h).2 c hc
  simp only [Bool.and_eq_true, Bool.not_eq_true', bne_iff_ne] at hall
  exact ⟨hall.1.1, hall.1.2, hall.2⟩

theorem isSolid_plainItems {text : List Byte} (h : isWord text = true) :
    isSolid (plainItems text) = true := by
  have hne : plainItems text ≠ [] := by
    have hword := (Bool.and_eq_true_iff.mp h).1
    simpa [plainItems] using hword
  have hsolid : ∀ item ∈ plainItems text, (!item.isSpace) = true := by
    intro item hitem
    obtain ⟨c, hc, rfl⟩ := List.mem_map.mp hitem
    simpa [Item.isSpace] using (isWord_char h hc).2.1
  rw [isSolid, List.head?_eq_some_head hne, List.getLast?_eq_some_getLast hne, Bool.and_eq_true]
  exact ⟨hsolid _ (List.head_mem hne), hsolid _ (List.getLast_mem hne)⟩

theorem bareOk_ne {c : Byte} (h : Entry.bareOk c = true) :
    c ≠ backslash ∧ isQuote c = false := by
  simp only [Entry.bareOk, Bool.not_eq_true', Bool.or_eq_false_iff, beq_eq_false_iff_ne] at h
  exact ⟨h.1.1.1.1, h.2⟩

/-- A word is well formed in the quotes of any entry. -/
theorem wellFormed_word {e : Entry} (he : e.wellFormed = true) {text : List Byte}
    (h : isWord text = true) : ({ e with items := plainItems text } : Entry).wellFormed = true := by
  cases hquote : e.quote with
  | none =>
      simp only [Entry.wellFormed, Bool.and_eq_true]
      refine ⟨isSolid_plainItems h, List.all_eq_true.mpr fun item hitem => ?_⟩
      obtain ⟨c, hc, rfl⟩ := List.mem_map.mp hitem
      exact (isWord_char h hc).1
  | some q =>
      simp only [Entry.wellFormed, hquote, Bool.and_eq_true] at he ⊢
      refine ⟨he.1, List.all_eq_true.mpr fun item hitem => ?_⟩
      obtain ⟨c, hc, rfl⟩ := List.mem_map.mp hitem
      obtain ⟨hbackslash, hnot⟩ := bareOk_ne (isWord_char h hc).1
      have hq : c ≠ q := by
        intro heq
        subst heq
        rw [he.1] at hnot
        cases hnot
      simp [Item.wellFormed, hbackslash, hq]

theorem isSimple_word (e : Entry) {text : List Byte} (h : isWord text = true) :
    ({ e with items := plainItems text } : Entry).isSimple = true := by
  rw [Entry.isSimple]
  refine List.all_eq_true.mpr fun item hitem => ?_
  obtain ⟨c, hc, rfl⟩ := List.mem_map.mp hitem
  obtain ⟨hok, -, hequals⟩ := isWord_char h hc
  simp [(bareOk_ne hok).2, hequals]

theorem wellFormed_withValue {p : Property} (hp : p.wellFormed = true) {text : List Byte}
    (h : isWord text = true) : (p.withValue text).wellFormed = true := by
  simp only [Property.wellFormed, Bool.and_eq_true] at hp ⊢
  obtain ⟨⟨hkeys, hvalue⟩, -⟩ := hp
  refine ⟨⟨hkeys, wellFormed_word hvalue h⟩, ?_⟩
  rw [show (p.withValue text).value.isSimple = true from isSimple_word p.value h]
  exact Bool.or_true _

theorem wellFormed_setVersion {version : List Byte} (h : isWord version = true)
    {properties : List Property} (hall : properties.all Property.wellFormed = true) :
    (setVersion version properties).all Property.wellFormed = true := by
  induction properties with
  | nil => rfl
  | cons p properties ih =>
      obtain ⟨hp, hrest⟩ := Bool.and_eq_true_iff.mp hall
      rw [setVersion]
      split
      · rw [List.all_cons, wellFormed_withValue hp h, hrest]
        rfl
      · rw [List.all_cons, hp, ih hrest]
        rfl

theorem wellFormed_versionProperty {version : List Byte} (h : isWord version = true) :
    (versionProperty version).wellFormed = true := by
  have hempty : (⟨none, plainItems versionKey⟩ : Entry).wellFormed = true := by decide
  have hvalue := wellFormed_word hempty h
  have hsimple := isSimple_word ⟨none, plainItems versionKey⟩ h
  simp only [Property.wellFormed, versionProperty, hvalue, hsimple, Bool.and_true, Bool.or_true]
  decide

/-- **A qualification stays well formed** when it is given a version. -/
theorem wellFormed_withVersion {q : Qualification} (hq : q.wellFormed = true)
    {version : List Byte} (h : isWord version = true) :
    (q.withVersion version).wellFormed = true := by
  simp only [Qualification.wellFormed, Bool.and_eq_true] at hq
  obtain ⟨hname, hproperties⟩ := hq
  rw [Qualification.withVersion]
  split
  · simp only [Qualification.wellFormed, Bool.and_eq_true]
    exact ⟨hname, wellFormed_setVersion h hproperties⟩
  · simp only [Qualification.wellFormed, Bool.and_eq_true, List.all_cons]
    exact ⟨hname, wellFormed_versionProperty h, hproperties⟩

end AutoInstrumentation.ReflectionName
