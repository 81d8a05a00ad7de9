import MovieVm.Proofs.Codec

/-!
# Modules delimit themselves

A decoder that succeeds has looked at no byte behind those it took, and asks for every one of them: when
they end too early, it fails for want of bytes and for no other reason. A module has to use up its source,
so nothing can be taken off the end of its bytes and nothing put behind them.
-/

namespace MovieVm.Bytecode

namespace Decoder

variable {α β : Type} {d : Decoder α} {f : α → Decoder β}

/-- The decoder fails for want of bytes. -/
def RunsOut (d : Decoder α) (s : Source) : Prop :=
  ∃ offset s', d s = .error (.truncated offset) s'

theorem RunsOut.bind {s : Source} (h : RunsOut d s) : RunsOut (d >>= f) s := by
  obtain ⟨offset, s', hd⟩ := h
  exact ⟨offset, s', by rw [EStateM.bind_apply, hd]⟩

theorem RunsOut.of_bind {s s' : Source} {x : α} (hd : d s = .ok x s') (h : RunsOut (f x) s') :
    RunsOut (d >>= f) s := by
  rwa [RunsOut, EStateM.bind_of_ok hd]

/-- The bytes end either before the first decoder is done or within those of the second. -/
theorem RunsOut.take_append {position place k : Nat} {taken more : List UInt8} {x : α}
    (hsame : ∀ tail, d ⟨position, taken ++ tail⟩ = .ok x ⟨place, tail⟩)
    (hd : ∀ k < taken.length, RunsOut d ⟨position, taken.take k⟩)
    (hf : ∀ k < more.length, RunsOut (f x) ⟨place, more.take k⟩) (hk : k < (taken ++ more).length) :
    RunsOut (d >>= f) ⟨position, (taken ++ more).take k⟩ := by
  rw [List.length_append] at hk
  rw [List.take_append]
  rcases Nat.lt_or_ge k taken.length with hfirst | hsecond
  · rw [Nat.sub_eq_zero_of_le (Nat.le_of_lt hfirst), List.take_zero, List.append_nil]
    exact (hd k hfirst).bind
  · rw [List.take_of_length_le hsecond]
    exact .of_bind (hsame _) (hf (k - taken.length) (by omega))

/-! ## Decoders that delimit what they take -/

/-- What the decoder returns depends on the bytes it takes and on nothing that follows them, and it runs
out when some of them are missing. -/
def Delimits (d : Decoder α) : Prop :=
  ∀ s x s', d s = .ok x s' → ∃ taken, s.rest = taken ++ s'.rest ∧
    (∀ tail, d ⟨s.position, taken ++ tail⟩ = .ok x ⟨s'.position, tail⟩) ∧
    ∀ k < taken.length, RunsOut d ⟨s.position, taken.take k⟩

namespace Delimits

theorem pure (x : α) : Delimits (Pure.pure x) := by
  intro s y s' h
  obtain ⟨rfl, rfl⟩ := EStateM.pure_eq_ok.1 h
  exact ⟨[], rfl, fun _ => rfl, fun _ hk => absurd hk (Nat.not_lt_zero _)⟩

theorem throw (e : ModuleError) : Delimits (throw e : Decoder α) :=
  fun _ _ _ h => absurd h EStateM.throw_eq_ok

theorem bind (hd : Delimits d) (hf : ∀ x, Delimits (f x)) : Delimits (d >>= f) := by
  intro s y s₂ h
  obtain ⟨x, s₁, hfirst, hsecond⟩ := EStateM.bind_eq_ok.1 h
  obtain ⟨taken, hrest, hsame, hshort⟩ := hd s x s₁ hfirst
  obtain ⟨more, hrest₁, hsame₁, hshort₁⟩ := hf x s₁ y s₂ hsecond
  refine ⟨taken ++ more, by rw [hrest, hrest₁, List.append_assoc], fun tail => ?_,
    fun k => .take_append hsame hshort hshort₁⟩
  rw [List.append_assoc, EStateM.bind_of_ok (hsame (more ++ tail)), hsame₁ tail]

theorem ite {p : Prop} [Decidable p] {d' : Decoder α} (hd : Delimits d) (hd' : Delimits d') :
    Delimits (if p then d else d') := by
  split
  · exact hd
  · exact hd'

/-- A decoder that first refuses what has been read so far. -/
theorem refuse {p : Prop} [Decidable p] {e : ModuleError} {k : α → Decoder β} {d : Decoder β}
    (hd : Delimits d) : Delimits (if p then MonadExcept.throw e >>= k else d) := by
  split
  · intro s x s' h
    obtain ⟨_, _, hthrow, _⟩ := EStateM.bind_eq_ok.1 h
    exact absurd hthrow EStateM.throw_eq_ok
  · exact hd

end Delimits

/-! ## Decoders of everything that is left -/

/-- The decoder has to use up its source: with a byte less it runs out, and with more it counts those
that are too many. -/
def Exhausts (d : Decoder α) : Prop :=
  ∀ s x s', d s = .ok x s' →
    (∀ k < s.rest.length, RunsOut d ⟨s.position, s.rest.take k⟩) ∧
    ∀ tail, tail ≠ [] → ∃ s'', d ⟨s.position, s.rest ++ tail⟩ = .error (.trailingBytes tail.length) s''

theorem Delimits.bind_exhausts (hd : Delimits d) (hf : ∀ x, Exhausts (f x)) : Exhausts (d >>= f) := by
  intro s y s₂ h
  obtain ⟨x, s₁, hfirst, hsecond⟩ := EStateM.bind_eq_ok.1 h
  obtain ⟨taken, hrest, hsame, hshort⟩ := hd s x s₁ hfirst
  obtain ⟨hshort₁, hlong₁⟩ := hf x s₁ y s₂ hsecond
  rw [hrest]
  refine ⟨fun k => .take_append hsame hshort hshort₁, fun tail htail => ?_⟩
  rw [List.append_assoc, EStateM.bind_of_ok (hsame _)]
  exact hlong₁ tail htail

theorem Exhausts.refuse {p : Prop} [Decidable p] {e : ModuleError} {k : α → Decoder β} {d : Decoder β}
    (hd : Exhausts d) : Exhausts (if p then MonadExcept.throw e >>= k else d) := by
  split
  · intro s x s' h
    obtain ⟨_, _, hthrow, _⟩ := EStateM.bind_eq_ok.1 h
    exact absurd hthrow EStateM.throw_eq_ok
  · exact hd

end Decoder

open Decoder

namespace Decode

/-! ## Primitive encodings -/

theorem delimits_position : Delimits position := by
  intro s x s' h
  obtain ⟨rfl, rfl⟩ := EStateM.pure_eq_ok.1 h
  exact ⟨[], rfl, fun _ => rfl, fun _ hk => absurd hk (Nat.not_lt_zero _)⟩

theorem delimits_u8 : Delimits u8 := by
  intro s b s' h
  obtain ⟨hrest, hposition⟩ := u8_eq_ok h
  refine ⟨[b], hrest, fun tail => ?_, fun k hk => ?_⟩
  · rw [hposition]
    exact reads_u8 b s.position tail
  · obtain rfl : k = 0 := by simpa using hk
    exact ⟨s.position, _, rfl⟩

theorem runsOut_bytes {s : Source} {n : Nat} (h : s.rest.length < n) : RunsOut (bytes n) s := by
  have hshort : s.position + n ≠ (s.skip n).position := by
    simp only [Source.skip, List.length_take]
    omega
  refine .of_bind (EStateM.get_apply s) (.of_bind (EStateM.set_apply s (s.skip n)) ?_)
  rw [if_pos hshort]
  exact .bind ⟨_, _, rfl⟩

theorem delimits_bytes (n : Nat) : Delimits (bytes n) := by
  intro s bs s' h
  obtain ⟨hrest, rfl, hposition⟩ := bytes_eq_ok h
  refine ⟨bs, hrest, fun tail => ?_, fun k hk => runsOut_bytes ?_⟩
  · rw [hposition]
    exact reads_bytes bs s.position tail
  · simp only [List.length_take]
    omega

theorem delimits_u16 : Delimits u16 :=
  (delimits_bytes 2).bind fun _ => .pure _

theorem delimits_d64 : Delimits d64 :=
  (delimits_bytes 8).bind fun _ => .pure _

theorem delimits_varintFrom (left shift value : Nat) : Delimits (varintFrom left shift value) := by
  -- On the bytes that may still come, for every shift and every value read so far.
  induction left generalizing shift value with
  | zero => exact delimits_position.bind fun _ => .throw _
  | succ left ih => exact delimits_u8.bind fun _ => .ite (.pure _) (ih _ _)

theorem delimits_u32 : Delimits u32 :=
  (delimits_varintFrom 5 0 0).bind fun _ => .pure _

theorem delimits_u30 : Delimits u30 :=
  delimits_position.bind fun _ => delimits_u32.bind fun _ => .refuse (.pure _)

theorem delimits_s32 : Delimits s32 :=
  delimits_u32.bind fun _ => .pure _

theorem delimits_text (n : Nat) : Delimits (text n) := by
  intro s t s' h
  obtain ⟨hrest, rfl, hposition⟩ := text_eq_ok h
  refine ⟨Text.toUtf8 t, hrest, fun tail => ?_, fun k hk => ?_⟩
  · have hread := reads_text t s.position tail
    rwa [Text.length_toUtf8, ← hposition] at hread
  · have hshort : (((Text.toUtf8 t).take k).take t.utf8ByteSize).length < t.utf8ByteSize := by
      rw [Text.length_toUtf8] at hk
      simp only [List.length_take]
      omega
    refine .of_bind (EStateM.get_apply _) ?_
    rw [if_pos hshort]
    exact .bind ⟨_, _, rfl⟩

theorem delimits_string : Delimits string :=
  delimits_u30.bind delimits_text

/-! ## Items and tables -/

theorem delimits_repeated {α : Type} {item : Nat → Decoder α} (h : ∀ index, Delimits (item index))
    (index count : Nat) : Delimits (repeated item index count) := by
  induction count generalizing index with
  | zero => exact .pure []
  | succ count ih => exact (h index).bind fun _ => (ih (index + 1)).bind fun _ => .pure _

theorem delimits_table {α : Type} {item : Nat → Decoder α} (h : ∀ index, Delimits (item index)) :
    Delimits (table item) :=
  delimits_u30.bind (delimits_repeated h 0)

theorem delimits_constant : Delimits constant :=
  delimits_u8.bind fun _ =>
    .ite (delimits_s32.bind fun _ => .pure _) <|
    .ite (delimits_d64.bind fun _ => .pure _) <|
    .ite (delimits_string.bind fun _ => .pure _) (.throw _)

theorem delimits_instruction : Delimits instruction := by
  refine delimits_position.bind fun _ => delimits_u8.bind fun byte => ?_
  cases Opcode.ofByte? byte with
  | none => exact .throw _
  | some opcode => exact .ite (.pure _) (delimits_u30.bind fun _ => .pure _)

theorem delimits_method (index : Nat) : Delimits (method index) :=
  delimits_u30.bind fun _ => delimits_u30.bind fun _ => delimits_u30.bind fun _ =>
    .refuse ((delimits_table fun _ => delimits_instruction).bind fun _ => .pure _)

theorem delimits_definition : Delimits definition :=
  delimits_u30.bind fun _ => delimits_u8.bind fun _ => delimits_u30.bind fun _ =>
    .ite (.pure _) <| .ite (.pure _) (.throw _)

/-! ## Modules -/

/-- The end of a module: nothing may be left. -/
theorem exhausts_end {α : Type} (x : α) :
    Exhausts (do
      let source ← get
      if !source.rest.isEmpty then throw (.trailingBytes source.remaining)
      return x) := by
  intro s y s' h
  obtain ⟨source, s₁, hget, h⟩ := EStateM.bind_eq_ok.1 h
  obtain ⟨rfl, rfl⟩ := EStateM.get_eq_ok.1 hget
  obtain ⟨hnothing, _⟩ := EStateM.refuse_eq_ok.1 h
  have hrest : s.rest = [] := by simpa using hnothing
  rw [hrest]
  refine ⟨fun k hk => absurd hk (Nat.not_lt_zero k), fun tail htail => ⟨⟨s.position, tail⟩, ?_⟩⟩
  refine (EStateM.bind_of_ok (EStateM.get_apply _)).trans ?_
  rw [if_pos (by simpa using htail)]
  rfl

theorem exhausts_module (label : String) : Exhausts (module label) :=
  delimits_u16.bind_exhausts fun _ => delimits_u16.bind_exhausts fun _ => .refuse <|
    (delimits_table fun _ => delimits_constant).bind_exhausts fun _ =>
    (delimits_table delimits_method).bind_exhausts fun _ =>
    (delimits_table fun _ => delimits_definition).bind_exhausts fun _ =>
    delimits_u30.bind_exhausts fun _ => exhausts_end _

/-- The label is kept for messages; nothing that is read depends on it. -/
theorem module_relabel (label other : String) :
    module other = (fun m : Module => { m with label := other }) <$> module label := by
  simp only [module, map_bind, apply_ite, map_pure]

end Decode

namespace Module

variable {m : Module} {bytes : List UInt8} {label : String}

theorem decode_eq_error {s : Source} {e : ModuleError}
    (h : Decode.module label (Source.ofBytes bytes) = .error e s) :
    Module.decode bytes label = .error e := by
  rw [Module.decode, h]

theorem decode_relabel (h : Module.decode bytes label = .ok m) (other : String) :
    Module.decode bytes other = .ok { m with label := other } := by
  obtain ⟨⟨s, hread⟩, hreferences⟩ := decode_eq_ok.1 h
  refine decode_eq_ok.2 ⟨⟨s, ?_⟩, hreferences⟩
  rw [Decode.module_relabel label other]
  exact EStateM.bind_of_ok hread

/-- From the bytes of a module nothing can be taken off the end: a part of them ends too early, and that
is the only thing wrong with it. Nothing can be put behind them either: what is too much is counted. So
the bytes of a module are no part of the bytes of another one that begins with them. -/
theorem decode_self_delimiting (h : Module.decode bytes label = .ok m) (other : String) :
    (∀ k < bytes.length, ∃ offset, Module.decode (bytes.take k) other = .error (.truncated offset)) ∧
      (∀ more, more ≠ [] →
        Module.decode (bytes ++ more) other = .error (.trailingBytes more.length)) ∧
      ∀ longer m', Module.decode longer other = .ok m' → bytes <+: longer → longer = bytes := by
  obtain ⟨⟨s, hread⟩, _⟩ := decode_eq_ok.1 (decode_relabel h other)
  obtain ⟨hshort, hlong⟩ := Decode.exhausts_module other _ _ _ hread
  have htrailing : ∀ more, more ≠ [] →
      Module.decode (bytes ++ more) other = .error (.trailingBytes more.length) := by
    intro more hmore
    obtain ⟨s', hfail⟩ := hlong more hmore
    exact decode_eq_error hfail
  refine ⟨fun k hk => ?_, htrailing, ?_⟩
  · obtain ⟨offset, s', hfail⟩ := hshort k hk
    exact ⟨offset, decode_eq_error hfail⟩
  · rintro _ m' hdecode ⟨more, rfl⟩
    by_cases hmore : more = []
    · rw [hmore, List.append_nil]
    · cases (htrailing more hmore).symm.trans hdecode

theorem decode_self_delimiting_tiny :
    Module.decode tinyBytes "" = .ok tiny ∧
      (∃ offset, Module.decode (tinyBytes.take 15) "a" = .error (.truncated offset)) ∧
      Module.decode (tinyBytes ++ [0, 0]) "a" = .error (.trailingBytes 2) := by
  have hdecode : Module.decode tinyBytes "" = .ok tiny := by rfl
  obtain ⟨hshort, hlong, _⟩ := decode_self_delimiting hdecode "a"
  exact ⟨hdecode, hshort 15 (by decide), hlong [0, 0] (by decide)⟩

end Module

end MovieVm.Bytecode
