import Mathlib.Data.List.Forall2
import MovieVm.Proofs.WriterFamilies
import MovieVm.Shell.Timing

/-!
# Additions to a console

Most of what writes to a console only adds lines to it, and which lines these are does not depend on the lines before.
Writings of that kind can be joined, put under an indentation and repeated, and two of them can be compared by what they
add: here by whether their lines are the same but for the times in them.
-/

namespace MovieVm

/-! ## Texts with times -/

/-- Two texts that are the same but for the times in them, which are written as milliseconds or as numbers of a
record. -/
inductive Retimed : String → String → Prop
  | same (text : String) : Retimed text text
  | milliseconds (x y : Double) : Retimed (Shell.milliseconds x) (Shell.milliseconds y)
  | number (x y : Double) : Retimed (Json.double x) (Json.double y)
  | append {left left' right right' : String} :
      Retimed left left' → Retimed right right' → Retimed (left ++ right) (left' ++ right')

/-- The same lines on the same channels, but for the times in them. -/
def SameButTimes : List Emission → List Emission → Prop :=
  List.Forall₂ fun e e' => e.channel = e'.channel ∧ Retimed e.line e'.line

namespace SameButTimes

theorem refl (lines : List Emission) : SameButTimes lines lines :=
  List.forall₂_same.2 fun e _ => ⟨rfl, .same e.line⟩

theorem append {lines lines' more more' : List Emission} (h : SameButTimes lines lines')
    (hmore : SameButTimes more more') : SameButTimes (lines ++ more) (lines' ++ more') :=
  List.rel_append h hmore

end SameButTimes

namespace Console

variable {c : Console} {w : Writer} {f f' g g' : Console → Console} {lines lines' more : List Emission}

/-! ## More lines -/

/-- The console with more lines. -/
def adding (c : Console) (lines : List Emission) : Console :=
  { c with emitted := c.emitted ++ lines }

theorem adding_nil (c : Console) : c.adding [] = c :=
  congrArg (Console.mk _ _ _ _) (Array.toList_inj.1 (by simp))

theorem adding_adding (c : Console) (lines more : List Emission) :
    (c.adding lines).adding more = c.adding (lines ++ more) :=
  congrArg (Console.mk _ _ _ _) (Array.toList_inj.1 (by simp [adding]))

theorem emit_eq (c : Console) (channel : Channel) (text : String) (w : Writer) :
    c.emit channel text w = c.adding [⟨channel, indentation (c.padding w) ++ text⟩] :=
  congrArg (Console.mk _ _ _ _) (Array.toList_inj.1 (by simp))

theorem adding_injective (h : c.adding lines = c.adding lines') : lines = lines' := by
  have hemitted := congrArg (·.emitted.toList) h
  simpa [adding] using hemitted

theorem outdent_indent (c : Console) (w : Writer) : (c.indent w).outdent w = c := by
  unfold outdent indent
  congr 1
  apply Array.ext_getElem?
  intro i
  simp only [Array.getElem?_modify]
  split
  · simp [Function.comp_def]
  · rfl

/-! ## Adding lines -/

/-- Whatever lines there are already, `f` adds these lines to the console and changes nothing else. -/
def Adds (f : Console → Console) (c : Console) (lines : List Emission) : Prop :=
  ∀ before, f (c.adding before) = c.adding (before ++ lines)

namespace Adds

theorem eq (h : Adds f c lines) : f c = c.adding lines := by
  simpa only [adding_nil, List.nil_append] using h []

theorem emitted (h : Adds f c lines) : (f c).emitted.toList = c.emitted.toList ++ lines := by
  rw [h.eq, adding, Array.toList_appendList]

theorem skip (c : Console) : Adds (fun c => c) c [] := fun _ => by
  rw [List.append_nil]

theorem line (c : Console) (channel : Channel) (text : String) (w : Writer) :
    Adds (·.emit channel text w) c [⟨channel, indentation (c.padding w) ++ text⟩] :=
  fun _ => (emit_eq ..).trans (adding_adding ..)

theorem andThen (hf : Adds f c lines) (hg : Adds g c more) : Adds (fun c => g (f c)) c (lines ++ more) :=
  fun before => by
    simp only [hf before, hg (before ++ lines), List.append_assoc]

/-- Writing for each of some items. -/
theorem foldl {α : Type} {step : Console → α → Console} {items : List α} {added : α → List Emission}
    (h : ∀ a ∈ items, Adds (step · a) c (added a)) : Adds (items.foldl step) c (items.flatMap added) := by
  induction items with
  | nil => exact .skip c
  | cons a items ih =>
    obtain ⟨hfirst, hothers⟩ := List.forall_mem_cons.1 h
    exact hfirst.andThen (ih hothers)

theorem foldl_lines {α : Type} {step : Console → α → Console} {items : List α} {added : α → Emission}
    (h : ∀ a ∈ items, Adds (step · a) c [added a]) : Adds (items.foldl step) c (items.map added) := by
  rw [List.map_eq_flatMap]
  exact .foldl h

/-- What is written inside of an indentation. -/
theorem indented (hf : Adds f (c.indent w) lines) : Adds (fun c => (f (c.indent w)).outdent w) c lines :=
  fun before => by
    have hinside : f ((c.adding before).indent w) = (c.indent w).adding (before ++ lines) := hf before
    change ((f _).outdent w) = _
    rw [hinside]
    exact congrArg (adding · _) (outdent_indent c w)

end Adds

/-! ## Adding lines that differ in times -/

/-- Two ways to write that add the same lines but for the times in them. -/
def AddAlike (f f' : Console → Console) (c : Console) : Prop :=
  ∃ lines lines', Adds f c lines ∧ Adds f' c lines' ∧ SameButTimes lines lines'

namespace AddAlike

theorem of_adds (h : Adds f c lines) : AddAlike f f c :=
  ⟨lines, lines, h, h, .refl lines⟩

theorem skip (c : Console) : AddAlike (fun c => c) (fun c => c) c :=
  of_adds (.skip c)

theorem line {text text' : String} (h : Retimed text text') (c : Console) (w : Writer) :
    AddAlike (·.writeLine text w) (·.writeLine text' w) c :=
  ⟨_, _, .line c .out text w, .line c .out text' w,
    .cons ⟨rfl, .append (.same (indentation (c.padding w))) h⟩ .nil⟩

theorem andThen (hf : AddAlike f f' c) (hg : AddAlike g g' c) :
    AddAlike (fun c => g (f c)) (fun c => g' (f' c)) c := by
  obtain ⟨lines, lines', hlines, hlines', hsame⟩ := hf
  obtain ⟨more, more', hmore, hmore', hmores⟩ := hg
  exact ⟨_, _, hlines.andThen hmore, hlines'.andThen hmore', hsame.append hmores⟩

theorem indented (hf : AddAlike f f' (c.indent w)) :
    AddAlike (fun c => (f (c.indent w)).outdent w) (fun c => (f' (c.indent w)).outdent w) c := by
  obtain ⟨lines, lines', hlines, hlines', hsame⟩ := hf
  exact ⟨lines, lines', hlines.indented, hlines'.indented, hsame⟩

theorem selected (b : Bool) (h : AddAlike f f' c) :
    AddAlike (fun c => if b then f c else c) (fun c => if b then f' c else c) c := by
  cases b with
  | false => exact .skip c
  | true => exact h

/-- Writing for each item of two lists, item by item. -/
theorem foldl {α β : Type} {step : Console → α → Console} {step' : Console → β → Console} {items : List α}
    {items' : List β} (h : List.Forall₂ (fun a b => AddAlike (step · a) (step' · b) c) items items') :
    AddAlike (items.foldl step) (items'.foldl step') c := by
  induction h with
  | nil => exact .skip c
  | cons hfirst _ ih => exact hfirst.andThen ih

end AddAlike

/-! ## Lines that the settings decide on -/

theorem adds_debugLine (c : Console) (text : String) (w : Writer) : ∃ lines, Adds (·.debugLine text w) c lines := by
  cases hshown : c.level.shows .debug with
  | false => exact ⟨[], fun before => by simp [debugLine, adding, hshown]⟩
  | true => 
    refine ⟨_, fun before => Eq.trans ?_ (Adds.line c .out text w before)⟩
    simp [debugLine, writeLine, adding, hshown]

theorem adds_errorLine (c : Console) (text : String) (w : Writer) : ∃ lines, Adds (·.errorLine text w) c lines := by
  cases hporcelain : c.porcelain with
  | false => 
    refine ⟨_, fun before => Eq.trans ?_ (Adds.line c .err text w before)⟩
    simp [errorLine, adding, hporcelain]
  | true => exact ⟨[], fun before => by simp [errorLine, adding, hporcelain]⟩

theorem adds_redLine (c : Console) (text : String) (w : Writer) : ∃ lines, Adds (·.redLine text w) c lines :=
  ⟨_, fun before => (redLine_eq ..).trans (Adds.line c .out (Request.lines.redden c.colors text) w before)⟩

end Console

end MovieVm
