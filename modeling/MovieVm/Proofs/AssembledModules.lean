import MovieVm.Proofs.Assembling
import MovieVm.Proofs.Drafts

/-!
# Assembled modules are well formed

The assembler does not check what it has built. What it builds passes the check of references nevertheless: an operand
that is a constant is one of the kind that its opcode asks for, and the name of a method stands for a method that the
text declares, before its use or behind it.
-/

namespace MovieVm.Bytecode

open Assembly

theorem exists_of_forall₂_right {α β : Type} {R : α → β → Prop} {xs : List α} {ys : List β} {y : β}
    (h : List.Forall₂ R xs ys) (hy : y ∈ ys) : ∃ x ∈ xs, R x y := by
  induction h with
  | nil => cases hy
  | @cons x y' _ _ hhead _ ih =>
    rcases List.mem_cons.1 hy with rfl | hrest
    · exact ⟨x, List.mem_cons_self .., hhead⟩
    · obtain ⟨x', hx', hR⟩ := ih hrest
      exact ⟨x', List.mem_cons_of_mem _ hx', hR⟩

theorem forall₂_imp_of_mem {α β : Type} {R S : α → β → Prop} {xs : List α} {ys : List β} (h : List.Forall₂ R xs ys)
    (hS : ∀ x ∈ xs, ∀ y ∈ ys, R x y → S x y) : List.Forall₂ S xs ys := by
  induction h with
  | nil => exact .nil
  | cons hhead _ ih =>
    refine .cons (hS _ (List.mem_cons_self ..) _ (List.mem_cons_self ..) hhead) (ih fun x hx y hy => ?_)
    exact hS x (List.mem_cons_of_mem _ hx) y (List.mem_cons_of_mem _ hy)

namespace Module

variable {m : Module} {n : Nat}

theorem length_names (m : Module) : m.names.length = m.methods.size := by
  simp [names]

theorem Denotes.resolves {opcode : Opcode} (h : m.Denotes n opcode.kind) : m.Resolves (opcode.withOperand n) := by
  cases opcode <;> exact h

/-- What an operand says is of the kind that its opcode asks for. -/
theorem denotes_of_means {kind : OperandKind} {operand : Operand kind} {places : String → Nat → Prop}
    (h : operand.Means m.constants m.names places n) : m.Denotes n kind := by
  cases operand with
  | int i => exact ⟨i, h⟩
  | double x => exact ⟨x, h⟩
  | string s => exact ⟨s, h⟩
  | name s => exact ⟨s, h⟩
  | method name =>
    have hlt : n < m.names.length := (List.getElem?_eq_some_iff.1 h).1
    rwa [length_names] at hlt
  | _ => trivial

end Module

namespace Assembly.Listing.Becomes

variable {listing : Listing} {m : Module}

theorem names_eq (h : listing.Becomes m) : m.names = listing.names := by
  have hnames : List.Forall₂ (· = ·) listing.names m.names := by
    simp only [Listing.names, Module.names, List.forall₂_map_left_iff, List.forall₂_map_right_iff]
    refine h.methods.imp fun source method hmethod => ?_
    rw [Module.nameOf, Module.stringConstant_eq_ok.2 hmethod.name]
    rfl
  rw [List.forall₂_eq_eq_eq] at hnames
  exact hnames.symm

variable (h : listing.Becomes m)
include h

theorem method_lt {name : String} {index : Nat} (hindex : listing.names[index]? = some name) :
    index < m.methods.size := by
  rw [← m.length_names, h.names_eq]
  exact (List.getElem?_eq_some_iff.1 hindex).1

theorem resolves {source : InstructionSource} {places : String → Nat → Prop} {i : Instruction}
    (hi : source.Becomes m.constants listing.names places i) : m.Resolves i := by
  obtain ⟨n, rfl, hmeans⟩ := hi
  rw [← h.names_eq] at hmeans
  exact (Module.denotes_of_means hmeans).resolves

theorem resolvesBinding {source : BindingSource} {b : Binding} (hb : source.Becomes m.constants listing.names b) :
    m.ResolvesBinding b := by
  rcases source with (_ | c) | name
  · obtain rfl := hb
    trivial
  · obtain ⟨index, rfl, hindex⟩ := hb
    exact (Array.getElem?_eq_some_iff.1 hindex).1
  · obtain ⟨index, rfl, hindex⟩ := hb
    exact h.method_lt hindex

theorem resolved : m.Resolved where
  init := by
    obtain ⟨name, _, hinit⟩ := h.init
    exact h.method_lt hinit
  methodName method hmethod := by
    obtain ⟨source, _, hsource⟩ := exists_of_forall₂_right h.methods (Array.mem_toList_iff.2 hmethod)
    exact ⟨_, hsource.name⟩
  code method hmethod i hi := by
    obtain ⟨source, _, hsource⟩ := exists_of_forall₂_right h.methods (Array.mem_toList_iff.2 hmethod)
    obtain ⟨line, _, hline⟩ := exists_of_forall₂_right hsource.code (Array.mem_toList_iff.2 hi)
    exact h.resolves hline
  definitionName d hd := by
    obtain ⟨source, _, hsource⟩ := exists_of_forall₂_right h.definitions hd
    exact ⟨_, hsource.name⟩
  binding d hd := by
    obtain ⟨source, _, hsource⟩ := exists_of_forall₂_right h.definitions hd
    exact h.resolvesBinding hsource.binding

theorem params_le (hsound : Sound listing.methods) {method : Method} (hmethod : method ∈ m.methods) :
    method.params ≤ method.locals := by
  obtain ⟨source, hmem, hsource⟩ := exists_of_forall₂_right h.methods (Array.mem_toList_iff.2 hmethod)
  rw [hsource.params, hsource.locals]
  exact hsound.room source hmem

end Assembly.Listing.Becomes

namespace Module

/-- Whatever is assembled passes the check of references, its methods have different names and room for their
parameters, and it is what the lines of the text say: a branch to a label goes to the place of the label in the same
method, and a method that is named is the one that is declared under its name. -/
theorem assembled_is_well_formed {source label : String} {m : Module} (h : assemble source label = .ok m) :
    m.checkReferences = .ok () ∧ m.names.Nodup ∧ (∀ method ∈ m.methods, method.params ≤ method.locals) ∧
      ∃ listing, Declares source listing ∧ (∀ other, Declares source other → other = listing) ∧
        Sound listing.methods ∧ m.names = listing.names ∧ listing.Becomes m := by
  obtain ⟨listing, hdeclares, hsound, hbecomes⟩ := listing_of_assemble h
  have hnames : m.names = listing.names := hbecomes.names_eq
  refine ⟨checkReferences_eq_ok.2 hbecomes.resolved, ?_, fun method => hbecomes.params_le hsound,
    listing, hdeclares, fun other => hdeclares.unique, hsound, hnames, hbecomes⟩
  rw [hnames]
  exact hsound.names

/-- Both methods have a label of the same name, and the second is used before it is declared. -/
def loopsText : String :=
  ".function Run main\n.method main params=1 locals=2\n  top:\n  newfunction helper\n  iftrue done\n  jump top\n" ++
    "  done:\n  returnvoid\n.end\n.method helper\n  done:\n  pushint 7\n  jump done\n.end\n.slot limit int 7\n.init main\n"

def loops : Module where
  label := "loops"
  minorVersion := 16
  majorVersion := 46
  constants := #[.string "Run", .string "main", .string "helper", .int 7, .string "limit"]
  methods := #[⟨1, 1, 2, #[.newFunction 1, .ifTrue 3, .jump 0, .returnVoid]⟩, ⟨2, 0, 0, #[.pushInt 3, .jump 0]⟩]
  definitions := [⟨0, .method 0⟩, ⟨4, .slot (some 3)⟩]
  init := 0

theorem assemble_loopsText : assemble loopsText "loops" = .ok loops :=
  Except.eq_ok_of_toOption (by decide +kernel)

theorem loops_is_well_formed :
    assemble loopsText "loops" = .ok loops ∧ loops.checkReferences = .ok () ∧ loops.names.Nodup ∧
      ∃ listing, Declares loopsText listing ∧ loops.names = listing.names ∧ listing.Becomes loops := by
  obtain ⟨hreferences, hnames, _, listing, hdeclares, _, _, hlisted, hbecomes⟩ :=
    assembled_is_well_formed assemble_loopsText
  exact ⟨assemble_loopsText, hreferences, hnames, listing, hdeclares, hlisted, hbecomes⟩

end Module

end MovieVm.Bytecode
