import MovieVm.Proofs.AssembledModules
import MovieVm.Proofs.Codec

/-!
# Numbers of an assembled module

The binary form has room for numbers below 2^30. The assembler refuses larger counts, slots and numbers of arguments,
and its indices and labels stay below the sizes of the tables. It does not look at a branch that goes to a number: such
a branch may be assembled and then not be read back.
-/

namespace MovieVm.Bytecode

open Assembly Decode

namespace Assembly

variable {kind : OperandKind} {text : List Char} {n : Nat}

/-! ## Numbers in the text -/

/-- The number of a branch that does not go to a label. -/
def Operand.place? : Operand kind → Option Nat
  | .place n => some n
  | _ => Option.none

/-- The limits that the assembler puts on the numbers of a text. -/
def Operand.Bounded : Operand kind → Prop
  | .slot n | .count n => n < 0x40000000
  | .place n => n < 0x100000000
  | _ => True

theorem readNat?_lt {bound : Nat} (h : Decimal.readNat? bound text = some n) : n < bound :=
  of_decide_eq_true (Option.filter_eq_some_iff.1 h).2

theorem readIndex_lt (h : readIndex text = .ok n) : n < 0x40000000 := by
  unfold readIndex at h
  cases hread : Decimal.readNat? (0x40000000) text with
  | none =>
    rw [hread] at h
    cases h
  | some k =>
    rw [hread] at h
    obtain rfl := Except.ok.inj h
    exact readNat?_lt hread

theorem readCount_lt {default : Nat} {count : Option (List Char)} (hdefault : default < 0x40000000)
    (h : readCount default count = .ok n) : n < 0x40000000 := by
  cases count with
  | none =>
    obtain rfl := Except.ok.inj h
    exact hdefault
  | some text => exact readIndex_lt h

theorem Operand.bounded_of_read? {text : Option (List Char)} {operand : Operand kind}
    (h : Operand.read? kind text = some operand) : operand.Bounded := by
  unfold Operand.read? at h
  split at h
  case h_6 | h_7 =>
    obtain ⟨n, hn, rfl⟩ := Option.map_eq_some_iff.1 h
    exact readIndex_lt (Except.eq_ok_of_toOption hn)
  case h_8 =>
    split at h
    case h_1 hread =>
      obtain rfl := Option.some.inj h
      exact readNat?_lt hread
    case h_2 =>
      obtain rfl := Option.some.inj h
      trivial
  case h_1 =>
    obtain rfl := Option.some.inj h
    trivial
  case h_2 | h_3 | h_4 | h_5 | h_9 =>
    obtain ⟨_, _, rfl⟩ := Option.map_eq_some_iff.1 h
    trivial
  case h_10 => cases h

theorem Entry.bounded_of_ofLine? {line : BodyLine} {i : InstructionSource}
    (h : Entry.ofLine? line = some (.instruction i)) : i.operand.Bounded := by
  cases line with
  | label name => cases h
  | instruction mnemonic operand =>
    obtain ⟨opcode, _, hread⟩ := Option.bind_eq_some_iff.1 h
    obtain ⟨read, hoperand, hi⟩ := Option.map_eq_some_iff.1 hread
    obtain rfl := Entry.instruction.inj hi
    exact Operand.bounded_of_read? hoperand

/-- What a line says keeps to the limits. -/
def Statement.Bounded : Statement → Prop
  | .opening heading => heading.params < 0x40000000 ∧ heading.locals < 0x40000000
  | .entry (.instruction i) => i.operand.Bounded
  | _ => True

theorem Statement.bounded_of_ofDirective? {directive : Directive} {statement : Statement}
    (h : Statement.ofDirective? directive = some statement) : statement.Bounded := by
  cases directive with
  | method name params locals =>
    obtain ⟨name, _, h⟩ := Option.bind_eq_some_iff.1 h
    obtain ⟨params, hparams, h⟩ := Option.bind_eq_some_iff.1 h
    obtain ⟨locals, hlocals, h⟩ := Option.bind_eq_some_iff.1 h
    obtain rfl := Option.some.inj h
    have hparamsLt := readCount_lt (by decide) (Except.eq_ok_of_toOption hparams)
    exact ⟨hparamsLt, readCount_lt hparamsLt (Except.eq_ok_of_toOption hlocals)⟩
  | slot name kind value =>
    obtain ⟨name, _, h⟩ := Option.bind_eq_some_iff.1 h
    obtain ⟨value, _, h⟩ := Option.bind_eq_some_iff.1 h
    obtain rfl := Option.some.inj h
    trivial
  | function name method =>
    obtain ⟨name, _, h⟩ := Option.bind_eq_some_iff.1 h
    obtain ⟨method, _, h⟩ := Option.bind_eq_some_iff.1 h
    obtain rfl := Option.some.inj h
    trivial
  | init method =>
    obtain ⟨name, _, rfl⟩ := Option.map_eq_some_iff.1 h
    trivial

theorem Statement.bounded_of_read? {statement : Statement} (h : Statement.read? text = some statement) :
    statement.Bounded := by
  unfold Statement.read? at h
  split at h
  case isTrue =>
    obtain rfl := Option.some.inj h
    trivial
  case isFalse =>
    split at h
    case h_1 => exact bounded_of_ofDirective? h
    case h_2 =>
      obtain ⟨e, he, rfl⟩ := Option.map_eq_some_iff.1 h
      obtain ⟨line, _, hline⟩ := Option.bind_eq_some_iff.1 he
      cases e with
      | label name => trivial
      | instruction i => exact Entry.bounded_of_ofLine? hline

theorem Declares.bounded {source : String} {listing : Listing} (h : Declares source listing) :
    ∀ statement ∈ listing.statements, statement.Bounded := by
  intro statement hmem
  have hread : some statement ∈ (contents (Text.lines source.toList)).map Statement.read? := by
    rw [h]
    exact List.mem_map_of_mem hmem
  obtain ⟨text, _, htext⟩ := List.mem_map.1 hread
  exact Statement.bounded_of_read? htext

theorem mem_statements {listing : Listing} {source : MethodSource} (h : source ∈ listing.methods)
    {statement : Statement} (hmem : statement ∈ (Declaration.method source).statements) :
    statement ∈ listing.statements := by
  obtain ⟨d, hd, hsource⟩ := List.mem_filterMap.1 h
  cases d with
  | method source' =>
    obtain rfl := Option.some.inj hsource
    exact List.mem_flatMap.2 ⟨_, hd, hmem⟩
  | _ => cases hsource

/-! ## Numbers in the module -/

theorem standsAt_le {body : List Entry} {label : String} {place : Nat} (h : StandsAt body label place) :
    place ≤ (instructions body).length := by
  obtain ⟨before, after, rfl, rfl⟩ := h
  simp [instructions]

/-- A branch goes to a number that has no room. -/
def InstructionSource.Far (source : InstructionSource) (i : Instruction) : Prop :=
  ∃ n, source.operand.place? = some n ∧ 0x40000000 ≤ n ∧ n < 0x100000000 ∧ i.operand? = some n

/-- The limits of the text and the sizes of the tables leave room for every number but that of a branch. -/
theorem Operand.Means.lt {operand : Operand kind} {constants : Array Constant} {names : List String} {body : List Entry}
    (h : operand.Means constants names (StandsAt body) n) (hbounded : operand.Bounded)
    (hconstants : constants.size < 0x40000000) (hnames : names.length < 0x40000000)
    (hbody : (instructions body).length < 0x40000000) : n < 0x40000000 ∨ operand.place? = some n := by
  cases operand with
  | none => exact .inl (h ▸ by decide)
  | int i | double x | string s | name s => exact .inl (Nat.lt_trans (Array.getElem?_eq_some_iff.1 h).1 hconstants)
  | slot k | count k => exact .inl (h ▸ hbounded)
  | place k => exact .inr (congrArg some h.symm)
  | label l => exact .inl (Nat.lt_of_le_of_lt (standsAt_le h) hbody)
  | method m => exact .inl (Nat.lt_trans (List.getElem?_eq_some_iff.1 h).1 hnames)

theorem Operand.place?_lt {operand : Operand kind} (h : operand.place? = some n) (hbounded : operand.Bounded) :
    n < 0x100000000 := by
  cases operand with
  | place k =>
    obtain rfl := Option.some.inj h
    exact hbounded
  | _ => cases h

theorem Operand.kind_of_place? {operand : Operand kind} (h : operand.place? = some n) : kind = .target := by
  cases operand with
  | place k => rfl
  | _ => cases h

theorem InstructionSource.Becomes.fits_or_far {source : InstructionSource} {constants : Array Constant}
    {names : List String} {body : List Entry} {i : Instruction}
    (h : source.Becomes constants names (StandsAt body) i) (hbounded : source.operand.Bounded)
    (hconstants : constants.size < 0x40000000) (hnames : names.length < 0x40000000)
    (hbody : (instructions body).length < 0x40000000) : i.Fits ∨ source.Far i := by
  obtain ⟨n, rfl, hmeans⟩ := h
  have hoperand := operand?_withOperand source.opcode n
  by_cases hlt : n < 0x40000000
  · refine .inl fun k hk => ?_
    rw [hoperand] at hk
    split at hk
    · cases hk
    · obtain rfl := Option.some.inj hk
      exact hlt
  · have hplace := (hmeans.lt hbounded hconstants hnames hbody).resolve_left hlt
    refine .inr ⟨n, hplace, Nat.le_of_not_lt hlt, Operand.place?_lt hplace hbounded, ?_⟩
    -- A branch does have an operand.
    rw [hoperand, if_neg]
    rw [Operand.kind_of_place? hplace]
    decide

end Assembly

namespace Module

variable {m : Module} {listing : Listing} {source : String}

/-- Every line of a method becomes an instruction with room for its number, unless it is a far branch. -/
theorem fits_or_far_of_becomes (h : listing.Becomes m) (hdeclares : Declares source listing)
    (hconstants : m.constants.size < 0x40000000) (hmethods : m.methods.size < 0x40000000)
    (hcode : ∀ method ∈ m.methods, method.code.size < 0x40000000) :
    List.Forall₂ (fun source method => List.Forall₂ (fun line i => i.Fits ∨ line.Far i)
      (instructions source.body) method.code.toList) listing.methods m.methods.toList := by
  refine forall₂_imp_of_mem h.methods fun source hsource method hmethod hbecomes => ?_
  have hbody : (instructions source.body).length < 0x40000000 := by
    rw [hbecomes.code.length_eq]
    exact hcode method (Array.mem_toList_iff.1 hmethod)
  have hnames : listing.names.length < 0x40000000 := by
    rwa [← h.names_eq, length_names]
  refine forall₂_imp_of_mem hbecomes.code fun line hline i _ hi => ?_
  obtain ⟨e, he, hentry⟩ := List.mem_filterMap.1 hline
  cases e with
  | label name => cases hentry
  | instruction line' =>
    obtain rfl : line' = line := Option.some.inj hentry
    have hstatement : Statement.entry (.instruction line') ∈ (Declaration.method source).statements := by
      simpa [Declaration.statements] using he
    have hbounded := hdeclares.bounded _ (mem_statements hsource hstatement)
    exact hi.fits_or_far hbounded hconstants hnames hbody

theorem numbers_lt_of_becomes (h : listing.Becomes m) (hdeclares : Declares source listing)
    (hconstants : m.constants.size < 0x40000000) {method : Method} (hmethod : method ∈ m.methods) :
    method.name < 0x40000000 ∧ method.params < 0x40000000 ∧ method.locals < 0x40000000 := by
  obtain ⟨source, hsource, hbecomes⟩ := exists_of_forall₂_right h.methods (Array.mem_toList_iff.2 hmethod)
  have hopening : Statement.opening source.toHeading ∈ (Declaration.method source).statements :=
    List.mem_cons_self ..
  obtain ⟨hparams, hlocals⟩ := hdeclares.bounded _ (mem_statements hsource hopening)
  rw [hbecomes.params, hbecomes.locals]
  exact ⟨Nat.lt_trans (Array.getElem?_eq_some_iff.1 hbecomes.name).1 hconstants, hparams, hlocals⟩

end Module

/-! ## Reading back -/

/-- All numbers of a method have room, and there may be too many locals. -/
structure Method.InRoom (m : Method) : Prop where
  name : m.name < 0x40000000
  params : m.params < 0x40000000
  locals : m.locals < 0x40000000
  size : m.code.size < 0x40000000
  operands : ∀ i ∈ m.code, i.Fits

theorem Method.InRoom.fits {method : Method} (h : method.InRoom) (hlocals : method.locals ≤ maxLocals) :
    method.Fits :=
  { h with locals := hlocals }

/-- All numbers that are written for a module have room. -/
structure Module.InRoom (m : Module) : Prop where
  constantCount : m.constants.size < 0x40000000
  constants : ∀ c ∈ m.constants, c.Fits
  methodCount : m.methods.size < 0x40000000
  methods : ∀ method ∈ m.methods, method.InRoom
  definitionCount : m.definitions.length < 0x40000000
  definitions : ∀ d ∈ m.definitions, d.name < 0x40000000

namespace Decode

section Refuses

variable {α β : Type} {d : Decoder α} {f : α → Decoder β} {x : α} {bytes more : List UInt8} {e : ModuleError}

/-- The decoder stops with an error within the bytes, whatever follows them. -/
def Refuses (d : Decoder α) (bytes : List UInt8) (e : ModuleError) : Prop :=
  ∀ position tail, ∃ s, d ⟨position, bytes ++ tail⟩ = .error e s

theorem Refuses.append (h : Refuses d bytes e) (more : List UInt8) : Refuses d (bytes ++ more) e := by
  intro position tail
  rw [List.append_assoc]
  exact h position (more ++ tail)

theorem Refuses.first (h : Refuses d bytes e) : Refuses (d >>= f) bytes e := by
  intro position tail
  obtain ⟨s, hs⟩ := h position tail
  exact ⟨s, by rw [EStateM.bind_apply, hs]⟩

theorem Refuses.bind (hd : Decoder.Reads d bytes x) (h : Refuses (f x) more e) :
    Refuses (d >>= f) (bytes ++ more) e := by
  intro position tail
  obtain ⟨s, hs⟩ := h (position + bytes.length) tail
  refine ⟨s, ?_⟩
  rw [List.append_assoc, EStateM.bind_of_ok (hd position (more ++ tail)), hs]

end Refuses

theorem refuses_method {method : Method} (h : method.InRoom) (hlocals : maxLocals < method.locals) (index : Nat) :
    Refuses (Decode.method index) (Encode.method method) (.tooManyLocals index method.locals) := by
  simp only [Encode.method, List.append_assoc]
  refine .bind (reads_u30 h.name) <| .bind (reads_u30 h.params) <| .bind (reads_u30 h.locals) ?_
  rw [if_pos hlocals]
  exact fun position tail => ⟨_, rfl⟩

/-- The first method with too many locals is refused, and those before it are read. -/
theorem refuses_methods {methods : List Method} (h : ∀ method ∈ methods, method.InRoom)
    (hlocals : ∃ method ∈ methods, maxLocals < method.locals) (index : Nat) :
    ∃ found count, Refuses (repeated Decode.method index methods.length) (methods.flatMap Encode.method)
      (.tooManyLocals found count) := by
  induction methods generalizing index with
  | nil =>
    obtain ⟨_, hmem, _⟩ := hlocals
    cases hmem
  | cons method methods ih =>
    obtain ⟨hmethod, hrest⟩ := List.forall_mem_cons.1 h
    by_cases hmany : maxLocals < method.locals
    · exact ⟨index, method.locals, (refuses_method hmethod hmany index).first.append _⟩
    · have hlater : ∃ later ∈ methods, maxLocals < later.locals := by
        obtain ⟨later, hmem, hlater⟩ := hlocals
        rcases List.mem_cons.1 hmem with rfl | hmem
        · exact absurd hlater hmany
        · exact ⟨later, hmem, hlater⟩
      obtain ⟨found, count, hrefuses⟩ := ih hrest hlater (index + 1)
      have hread := reads_method (hmethod.fits (Nat.le_of_not_lt hmany)) index
      exact ⟨found, count, .bind hread hrefuses.first⟩

theorem refuses_module {m : Module} (h : m.InRoom) (hversion : m.majorVersion = supportedMajor)
    (hlocals : ∃ method ∈ m.methods.toList, maxLocals < method.locals) :
    ∃ found count, Refuses (Decode.module m.label) m.encode (.tooManyLocals found count) := by
  have hconstants := reads_table (fun _ => constant) Encode.constant m.constants.toList
    (fun _ c hc => reads_constant (h.constants c (Array.mem_toList_iff.1 hc))) h.constantCount
  have hinRoom : ∀ method ∈ m.methods.toList, method.InRoom :=
    fun method hmethod => h.methods method (Array.mem_toList_iff.1 hmethod)
  obtain ⟨found, count, hmethods⟩ := refuses_methods hinRoom hlocals 0
  refine ⟨found, count, ?_⟩
  have hparts : m.encode = Encode.u16 m.minorVersion ++ (Encode.u16 m.majorVersion ++
      ((Encode.varint m.constants.toList.length ++ m.constants.toList.flatMap Encode.constant) ++
      ((Encode.varint m.methods.toList.length ++ m.methods.toList.flatMap Encode.method) ++
      (Encode.varint m.definitions.length ++ m.definitions.flatMap Encode.definition ++
      Encode.varint m.init)))) := by
    simp [Module.encode]
  rw [hparts]
  refine .bind (reads_u16 m.minorVersion) (.bind (reads_u16 m.majorVersion) ?_)
  rw [if_neg (fun hne => hne hversion)]
  refine .bind hconstants (.first (.append ?_ _))
  exact .bind (reads_u30 h.methodCount) hmethods

end Decode

namespace Module

variable {m : Module}

/-- A module whose numbers have room is read back, or refused for too many locals. -/
theorem InRoom.decode_encode (h : m.InRoom) (hreferences : m.checkReferences = .ok ())
    (hversion : m.majorVersion = supportedMajor) : decode m.encode m.label = .ok m ∨
      ∃ index count, decode m.encode m.label = .error (.tooManyLocals index count) := by
  by_cases hlocals : ∀ method ∈ m.methods, method.locals ≤ maxLocals
  · left
    exact Module.decode_encode {
      references := hreferences
      version := hversion
      constantCount := h.constantCount
      constants := h.constants
      methodCount := h.methodCount
      methods := fun method hmethod => (h.methods method hmethod).fits (hlocals method hmethod)
      definitionCount := h.definitionCount
      definitionNames := h.definitions }
  · right
    have hmany : ∃ method ∈ m.methods.toList, maxLocals < method.locals := by
      simpa using hlocals
    obtain ⟨found, count, hrefuses⟩ := Decode.refuses_module h hversion hmany
    obtain ⟨s, hs⟩ := hrefuses 0 []
    refine ⟨found, count, ?_⟩
    rw [List.append_nil] at hs
    rw [decode, Source.ofBytes, hs]

end Module

/-! ## Assembled modules -/

/-- No branch of the text goes to a number without room. -/
def Assembly.Listing.Near (listing : Listing) : Prop :=
  ∀ source ∈ listing.methods, ∀ line ∈ instructions source.body, ∀ n, line.operand.place? = some n → n < 0x40000000

namespace Module

variable {m : Module} {listing : Listing}

theorem fits_of_near (hnear : listing.Near)
    (h : List.Forall₂ (fun source method => List.Forall₂ (fun line i => i.Fits ∨ line.Far i)
      (instructions source.body) method.code.toList) listing.methods m.methods.toList) :
    ∀ method ∈ m.methods, ∀ i ∈ method.code, i.Fits := by
  intro method hmethod i hi
  obtain ⟨source, hsource, hlines⟩ := exists_of_forall₂_right h (Array.mem_toList_iff.2 hmethod)
  obtain ⟨line, hline, hfits | ⟨n, hplace, hfar, _⟩⟩ := exists_of_forall₂_right hlines (Array.mem_toList_iff.2 hi)
  · exact hfits
  · exact absurd (hnear source hsource line hline n hplace) (Nat.not_lt.2 hfar)

theorem payload_lt_of_becomes (h : listing.Becomes m) (hconstants : m.constants.size < 0x40000000)
    (hmethods : m.methods.size < 0x40000000) {d : Definition} (hd : d ∈ m.definitions) :
    d.name < 0x40000000 ∧ d.binding.payload < 0x40000000 := by
  obtain ⟨s, hname⟩ := h.resolved.definitionName d hd
  have hbinding := h.resolved.binding d hd
  refine ⟨Nat.lt_trans (Array.getElem?_eq_some_iff.1 hname).1 hconstants, ?_⟩
  -- A constant is written one higher than its index, which is below the size of the pool.
  rcases hslot : d.binding with (_ | index) | index <;> rw [hslot] at hbinding
  · decide
  · exact Nat.lt_of_le_of_lt hbinding hconstants
  · exact Nat.lt_trans hbinding hmethods

/-- Every number that the assembler puts into a module has room in the binary form, but for a branch that the text
sends to a number: it may go as far as 2^32. If the text has no such branch without room, what is assembled is read
back, unless it is refused for the many locals that a method has. -/
theorem assembled_numbers_have_room {source label : String} {m : Module} (h : assemble source label = .ok m)
    (hconstants : m.constants.size < 0x40000000) (hmethods : m.methods.size < 0x40000000)
    (hcode : ∀ method ∈ m.methods, method.code.size < 0x40000000) :
    (∀ method ∈ m.methods, method.name < 0x40000000 ∧ method.params < 0x40000000 ∧ method.locals < 0x40000000) ∧
      (∀ d ∈ m.definitions, d.name < 0x40000000 ∧ d.binding.payload < 0x40000000) ∧ m.init < 0x40000000 ∧
      ∃ listing, Declares source listing ∧ (∀ other, Declares source other → other = listing) ∧
        List.Forall₂ (fun source method => List.Forall₂ (fun line i => i.Fits ∨ line.Far i)
          (instructions source.body) method.code.toList) listing.methods m.methods.toList ∧
        (listing.Near → (∀ method ∈ m.methods, ∀ i ∈ method.code, i.Fits) ∧
          (m.definitions.length < 0x40000000 → (∀ c ∈ m.constants, c.Fits) →
            decode m.encode m.label = .ok m ∨
              ∃ index count, decode m.encode m.label = .error (.tooManyLocals index count))) := by
  obtain ⟨listing, hdeclares, _, hbecomes⟩ := listing_of_assemble h
  have hnumbers : ∀ method ∈ m.methods,
      method.name < 0x40000000 ∧ method.params < 0x40000000 ∧ method.locals < 0x40000000 :=
    fun method => numbers_lt_of_becomes hbecomes hdeclares hconstants
  have hdefinitions : ∀ d ∈ m.definitions, d.name < 0x40000000 ∧ d.binding.payload < 0x40000000 :=
    fun d => payload_lt_of_becomes hbecomes hconstants hmethods
  have hlines := fits_or_far_of_becomes hbecomes hdeclares hconstants hmethods hcode
  refine ⟨hnumbers, hdefinitions, Nat.lt_trans hbecomes.resolved.init hmethods, listing, hdeclares,
    fun other => hdeclares.unique, hlines, fun hnear => ⟨fits_of_near hnear hlines, fun hcount hstrings => ?_⟩⟩
  have hroom : m.InRoom := {
    constantCount := hconstants
    constants := hstrings
    methodCount := hmethods
    definitionCount := hcount
    definitions := fun d hd => (hdefinitions d hd).1
    methods := by
      intro method hmethod
      obtain ⟨hname, hparams, hlocals⟩ := hnumbers method hmethod
      exact ⟨hname, hparams, hlocals, hcode method hmethod, fits_of_near hnear hlines method hmethod⟩ }
  exact hroom.decode_encode (checkReferences_eq_ok.2 hbecomes.resolved) hbecomes.version.1

theorem loops_numbers_have_room :
    assemble loopsText "loops" = .ok loops ∧ loops.constants.size < 0x40000000 ∧ loops.methods.size < 0x40000000 ∧
      (∀ method ∈ loops.methods, method.code.size < 0x40000000) ∧
      (∀ method ∈ loops.methods, method.name < 0x40000000 ∧ method.params < 0x40000000 ∧ method.locals < 0x40000000) ∧
      loops.init < 0x40000000 := by
  have hconstants : loops.constants.size < 0x40000000 := by decide
  have hmethods : loops.methods.size < 0x40000000 := by decide
  have hcode : ∀ method ∈ loops.methods, method.code.size < 0x40000000 := by decide
  obtain ⟨hnumbers, _, hinit, _⟩ := assembled_numbers_have_room assemble_loopsText hconstants hmethods hcode
  exact ⟨assemble_loopsText, hconstants, hmethods, hcode, hnumbers, hinit⟩

/-- A branch to the first number that has no room. -/
def farText : String :=
  ".method m\n  jump 1073741824\n.end\n.init m"

def far : Module where
  label := "far"
  minorVersion := 16
  majorVersion := 46
  constants := #[.string "m"]
  methods := #[⟨0, 0, 0, #[.jump 1073741824]⟩]
  definitions := []
  init := 0

def farBytes : List UInt8 :=
  [16, 0, 46, 0, 1, 3, 1, 109, 1, 0, 0, 0, 1, 0x10, 0x80, 0x80, 0x80, 0x80, 4, 0, 0]

/-- The far branch is assembled, and its module is not read back. -/
theorem far_branch_has_no_room :
    assemble farText "far" = .ok far ∧ far.constants.size < 0x40000000 ∧ far.methods.size < 0x40000000 ∧
      (∀ method ∈ far.methods, method.code.size < 0x40000000) ∧
      (¬ ∀ method ∈ far.methods, ∀ i ∈ method.code, i.Fits) ∧
      decode far.encode "far" = .error (.invalidU30 14) := by
  have hbytes : far.encode = farBytes := by decide +kernel
  have hdecode : decode farBytes "far" = .error (.invalidU30 14) := by rfl
  refine ⟨Except.eq_ok_of_toOption (by decide +kernel), by decide, by decide, by decide, fun hfits => ?_,
    hbytes ▸ hdecode⟩
  have hlt : 1073741824 < 0x40000000 :=
    hfits ⟨0, 0, 0, #[.jump 1073741824]⟩ (by simp [far]) (.jump 1073741824) (by simp) 1073741824 rfl
  exact absurd hlt (by decide)

end Module

end MovieVm.Bytecode
