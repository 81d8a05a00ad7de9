import MovieVm.Proofs.Stored

/-!
# Streams that arrive in pieces

A reader of bits that comes to an answer comes to the same one when whole bytes follow, so the items of a
stream do not depend on where it is cut: two pieces inflate to what they inflate to as one.
-/

namespace MovieVm.Deflate

/-! ## Readers and the bytes that follow -/

/-- Whole bytes behind the bits change nothing of what the reader takes from them, nor that they are corrupt.
A reader that succeeds has taken at least so many bits. -/
structure BitReader.Steady {α : Type} (least : Nat) (r : BitReader α) : Prop where
  ok : ∀ {bits a rest more}, r bits = .ok a rest → more.length % 8 = 0 → r (bits ++ more) = .ok a (rest ++ more)
  corrupt : ∀ {bits rest more}, r bits = .error .corrupt rest → more.length % 8 = 0 →
    ∃ rest', r (bits ++ more) = .error .corrupt rest'
  takes : ∀ {bits a rest}, r bits = .ok a rest → rest.length + least ≤ bits.length

namespace BitReader

variable {α β : Type} {r : BitReader α} {f : α → BitReader β} {least : Nat}

namespace Steady

theorem pure (a : α) : Steady 0 (Pure.pure a) where
  ok h _ := by
    obtain ⟨rfl, rfl⟩ := EStateM.pure_eq_ok.1 h
    rfl
  corrupt h := nomatch h
  takes h := by
    obtain ⟨-, rfl⟩ := EStateM.pure_eq_ok.1 h
    exact Nat.le_refl _

theorem throw (stop : Stop) : Steady least (throw stop : BitReader α) where
  ok h := absurd h EStateM.throw_eq_ok
  corrupt h _ := by
    obtain ⟨rfl, -⟩ := EStateM.Result.error.inj h
    exact ⟨_, rfl⟩
  takes h := absurd h EStateM.throw_eq_ok

theorem of_le {fewer : Nat} (h : Steady least r) (hfewer : fewer ≤ least) : Steady fewer r :=
  ⟨h.ok, h.corrupt, fun hr => Nat.le_trans (Nat.add_le_add_left hfewer _) (h.takes hr)⟩

theorem weaken (h : Steady least r) : Steady 0 r :=
  h.of_le (Nat.zero_le _)

theorem bind_add {first second : Nat} (hr : Steady first r) (hf : ∀ a, Steady second (f a)) :
    Steady (first + second) (r >>= f) where
  ok h hmore := by
    obtain ⟨a, bits', ha, hb⟩ := EStateM.bind_eq_ok.1 h
    rw [EStateM.bind_of_ok (hr.ok ha hmore)]
    exact (hf a).ok hb hmore
  corrupt {bits _ _} h hmore := by
    rw [EStateM.bind_apply] at h
    cases ha : r bits with
    | ok a bits' =>
      rw [ha] at h
      rw [EStateM.bind_of_ok (hr.ok ha hmore)]
      exact (hf a).corrupt h hmore
    | error stop bits' =>
      rw [ha] at h
      obtain ⟨rfl, -⟩ := EStateM.Result.error.inj h
      obtain ⟨rest', hr'⟩ := hr.corrupt ha hmore
      exact ⟨rest', by rw [EStateM.bind_apply, hr']⟩
  takes h := by
    obtain ⟨a, bits', ha, hb⟩ := EStateM.bind_eq_ok.1 h
    have hfirst := hr.takes ha
    have hsecond := (hf a).takes hb
    omega

/-- The first reader alone takes the bits that are asked for. -/
theorem bind (hr : Steady least r) (hf : ∀ a, Steady 0 (f a)) : Steady least (r >>= f) :=
  hr.bind_add hf

/-- The second reader alone takes the bits that are asked for. -/
theorem after (hr : Steady 0 r) (hf : ∀ a, Steady least (f a)) : Steady least (r >>= f) :=
  Nat.zero_add least ▸ hr.bind_add hf

theorem ite {p : Prop} [Decidable p] {r' : BitReader α} (hr : Steady least r) (hr' : Steady least r') :
    Steady least (if p then r else r') := by
  split
  · exact hr
  · exact hr'

/-- A reader that first refuses what has been read so far. -/
theorem refuse {p : Prop} [Decidable p] {stop : Stop} {k : β → BitReader α} (hr : Steady least r) :
    Steady least (if p then MonadExcept.throw stop >>= k else r) := by
  split
  · change Steady least (MonadExcept.throw stop : BitReader α)
    exact throw stop
  · exact hr

theorem mapM {item : β → BitReader α} (h : ∀ b, Steady least (item b)) (items : List β) :
    Steady 0 (items.mapM item) := by
  induction items with
  | nil => exact .pure _
  | cons b items ih =>
    rw [List.mapM_cons]
    exact (h b).weaken.bind fun a => ih.bind fun rest => .pure _

theorem mapM_cons {item : β → BitReader α} (h : ∀ b, Steady least (item b)) (b : β) (items : List β) :
    Steady least ((b :: items).mapM item) := by
  rw [List.mapM_cons]
  exact (h b).bind fun a => (mapM h items).bind fun rest => .pure _

end Steady

/-! ## Bits and numbers -/

theorem steady_bit : Steady 1 bit where
  ok {bits _ _ _} h _ := by
    cases bits with
    | nil => cases h
    | cons b bits =>
      cases h
      rfl
  corrupt {bits _ _} h := by cases bits <;> cases h
  takes {bits _ _} h := by
    cases bits with
    | nil => cases h
    | cons b bits =>
      cases h
      exact Nat.le_refl _

theorem steady_bits (width : Nat) : Steady width (bits width) := by
  induction width with
  | zero => exact .pure _
  | succ width ih =>
    rw [bits, Nat.add_comm]
    exact steady_bit.bind_add fun b => ih.bind fun rest => .pure _

theorem steady_number (width : Nat) : Steady width (number width) :=
  (steady_bits width).bind fun _ => .pure _

/-- How much of a byte was begun does not depend on the whole bytes that follow. -/
theorem steady_align : Steady 0 align where
  ok {bits _ rest more} h hmore := by
    obtain rfl : bits.drop (bits.length % 8) = rest := (EStateM.Result.ok.inj h).2
    have hbegun : (bits ++ more).length % 8 = bits.length % 8 := by
      rw [List.length_append]
      omega
    change EStateM.Result.ok PUnit.unit ((bits ++ more).drop ((bits ++ more).length % 8)) = _
    rw [hbegun, List.drop_append_of_le_length (Nat.mod_le _ _)]
  corrupt h := nomatch h
  takes {bits _ rest} h := by
    obtain rfl : bits.drop (bits.length % 8) = rest := (EStateM.Result.ok.inj h).2
    rw [List.length_drop]
    omega

end BitReader

open BitReader

/-! ## Codes -/

namespace Code

/-- A code has at least one bit; with no lengths left there is no code. -/
theorem steady_decodeFrom (symbols : Array Nat) (counts : List Nat) (value first index : Nat) :
    Steady 1 (decodeFrom symbols counts value first index) := by
  induction counts generalizing value first index with
  | nil => exact .throw _
  | cons count counts ih =>
    refine steady_bit.bind fun b => .ite ?_ (ih _ _ _).weaken
    split
    · exact .pure _
    · exact .throw _

theorem steady_decode (c : Code) : Steady 1 c.decode :=
  steady_decodeFrom _ _ _ _ _

end Code

namespace Inflate

theorem steady_readLengths (code : Code) (left : Nat) (previous : List Nat) :
    Steady 0 (readLengths code left previous) := by
  induction left using Nat.strongRecOn generalizing previous with
  | ind left ih =>
    cases left with
    | zero =>
      rw [readLengths]
      exact .pure _
    | succ left =>
      rw [readLengths]
      refine code.steady_decode.weaken.bind fun symbol => .ite (ih left (Nat.lt_succ_self _) _) ?_
      extract_lets repeated
      -- However a length is repeated, fewer lengths are left.
      have hrepeated : ∀ way, Steady 0 (repeated way) := by
        rintro ⟨length, least, width⟩
        exact (steady_number width).weaken.bind fun extra => .refuse (ih _ (by omega) _)
      refine .ite ?_ (.ite ((Steady.pure _).bind hrepeated) ((Steady.pure _).bind hrepeated))
      cases previous with
      | nil => exact (Steady.throw _).bind hrepeated
      | cons last previous => exact (Steady.pure _).bind hrepeated

theorem steady_readCodes : Steady 0 readCodes := by
  unfold readCodes
  refine (steady_number 5).weaken.bind fun literals => (steady_number 5).weaken.bind fun distances =>
    (steady_number 4).weaken.bind fun order => .refuse ?_
  refine (Steady.mapM (fun symbol => (steady_number 3).weaken.bind fun _ => .pure _) _).bind fun given => .refuse ?_
  exact (steady_readLengths _ _ _).bind fun lengths => .refuse (.pure _)

theorem steady_readExtended (table : Array (Nat × Nat)) (index : Nat) : Steady 0 (readExtended table index) := by
  unfold readExtended
  split
  · exact .throw _
  · exact (steady_number _).weaken.bind fun _ => .pure _

/-- Every item has at least one bit. -/
theorem steady_item (output : Array UInt8) (phase : Phase) : Steady 1 (item output phase) := by
  have hbyte : Steady 1 (number 8) := (steady_number 8).of_le (by decide)
  cases phase with
  | header => exact hbyte.bind fun method => hbyte.weaken.bind fun flags => .ite (.pure _) (.throw _)
  | block =>
    refine steady_bit.bind fun isLast => (steady_number 2).weaken.bind fun kind => ?_
    exact .ite (.pure _) (.ite (.pure _) (.ite (steady_readCodes.bind fun _ => .pure _) (.throw _)))
  | storedHeader isLast =>
    refine steady_align.after fun _ => ((steady_number 16).of_le (by decide)).bind fun length => ?_
    exact (steady_number 16).weaken.bind fun complement => .refuse (.pure _)
  | stored isLast left => exact hbyte.bind fun b => .pure _
  | coded isLast literals distances =>
    refine literals.steady_decode.bind fun symbol => .ite (.pure _) (.ite (.pure _) ?_)
    exact (steady_readExtended _ _).bind fun length => distances.steady_decode.weaken.bind fun code =>
      (steady_readExtended _ _).bind fun distance => .pure _
  | checksum =>
    exact steady_align.after fun _ => (Steady.mapM_cons (fun _ => hbyte) 0 [1, 2, 3]).bind fun parts =>
      .ite (.pure _) (.throw _)
  | ended => exact .throw _

/-! ## Output -/

/-- What is read adds to the output. -/
def Extends (output : Array UInt8) (r : BitReader (Phase × Array UInt8)) : Prop :=
  ∀ bits phase output' rest, r bits = .ok (phase, output') rest → output.toList <+: output'.toList

namespace Extends

variable {α : Type} {output output' : Array UInt8} {r r' : BitReader (Phase × Array UInt8)}

theorem pure (phase : Phase) (h : output.toList <+: output'.toList) : Extends output (Pure.pure (phase, output')) := by
  intro _ _ _ _ hr
  obtain ⟨hresult, -⟩ := EStateM.pure_eq_ok.1 hr
  obtain ⟨-, rfl⟩ := Prod.mk.inj hresult
  exact h

theorem throw (stop : Stop) : Extends output (throw stop) :=
  fun _ _ _ _ h => absurd h EStateM.throw_eq_ok

theorem bind {first : BitReader α} {f : α → BitReader (Phase × Array UInt8)} (hf : ∀ a, Extends output (f a)) :
    Extends output (first >>= f) := by
  intro _ _ _ _ h
  obtain ⟨a, _, _, hsecond⟩ := EStateM.bind_eq_ok.1 h
  exact hf a _ _ _ _ hsecond

theorem ite {p : Prop} [Decidable p] (hr : Extends output r) (hr' : Extends output r') :
    Extends output (if p then r else r') := by
  split
  · exact hr
  · exact hr'

end Extends

theorem prefix_push (output : Array UInt8) (b : UInt8) : output.toList <+: (output.push b).toList := by
  rw [Array.toList_push]
  exact List.prefix_append _ _

theorem prefix_copy (output : Array UInt8) (distance length : Nat) :
    output.toList <+: (copy output distance length).toList := by
  induction length generalizing output with
  | zero => exact List.prefix_refl _
  | succ length ih => exact (prefix_push output _).trans (ih _)

theorem extends_item (output : Array UInt8) (phase : Phase) : Extends output (item output phase) := by
  have hsame : output.toList <+: output.toList := List.prefix_refl _
  cases phase with
  | header => exact .bind fun _ => .bind fun _ => .ite (.pure _ hsame) (.throw _)
  | block =>
    refine .bind fun _ => .bind fun _ => .ite (.pure _ hsame) (.ite (.pure _ hsame) (.ite ?_ (.throw _)))
    exact .bind fun _ => .pure _ hsame
  | storedHeader isLast =>
    exact .bind fun _ => .bind fun _ => .bind fun _ => .ite (.bind fun _ => .pure _ hsame) (.pure _ hsame)
  | stored isLast left => exact .bind fun _ => .pure _ (prefix_push _ _)
  | coded isLast literals distances =>
    refine .bind fun _ => .ite (.pure _ (prefix_push _ _)) (.ite (.pure _ hsame) ?_)
    exact .bind fun _ => .bind fun _ => .bind fun _ => .pure _ (prefix_copy _ _ _)
  | checksum => exact .bind fun _ => .bind fun _ => .ite (.pure _ hsame) (.throw _)
  | ended => exact .throw _

/-! ## Runs -/

variable {s t : Inflate}

/-- With fuel for every bit a run does not depend on it. -/
theorem run_eq_run {m n : Nat} (hm : s.bits.length < m) (hn : s.bits.length < n) : run m s = run n s := by
  induction m generalizing s n with
  | zero => exact absurd hm (Nat.not_lt_zero _)
  | succ m ih =>
    obtain ⟨n, rfl⟩ := Nat.exists_eq_add_one.2 (Nat.zero_lt_of_lt hn)
    rw [run, run]
    cases hitem : item s.output s.phase s.bits with
    | error stop rest => cases stop <;> rfl
    | ok next rest =>
      have htakes := (steady_item s.output s.phase).takes hitem
      exact ih (by simp only; omega) (by simp only; omega)

/-- What a run adds to the output. -/
theorem prefix_of_run {fuel : Nat} (h : run fuel s = some t) : s.output.toList <+: t.output.toList := by
  induction fuel generalizing s with
  | zero =>
    cases h
    exact List.prefix_refl _
  | succ fuel ih =>
    rw [run] at h
    split at h
    · rename_i phase output bits hitem
      exact (extends_item _ _ _ _ _ _ hitem).trans (ih h)
    · cases h
      exact List.prefix_refl _
    · cases h

/-- Reads all items that are there. -/
def drain (s : Inflate) : Option Inflate :=
  run (s.bits.length + 1) s

theorem prefix_of_drain (h : s.drain = some t) : s.output.toList <+: t.output.toList :=
  prefix_of_run h

theorem drain_of_ok {phase : Phase} {output : Array UInt8} {bits : List Bool}
    (h : item s.output s.phase s.bits = .ok (phase, output) bits) : s.drain = drain ⟨phase, bits, output⟩ := by
  have htakes := (steady_item s.output s.phase).takes h
  rw [drain, run, h]
  exact run_eq_run (by simp only; omega) (Nat.lt_succ_self _)

theorem drain_of_starved {bits : List Bool} (h : item s.output s.phase s.bits = .error .starved bits) :
    s.drain = some s := by
  rw [drain, run, h]

theorem drain_of_corrupt {bits : List Bool} (h : item s.output s.phase s.bits = .error .corrupt bits) :
    s.drain = none := by
  rw [drain, run, h]

theorem drain_of_ended (h : s.phase = .ended) : s.drain = some s := by
  apply drain_of_starved
  rw [h]
  rfl

/-- A stream of which more bytes have arrived. -/
def gain (s : Inflate) (bytes : List UInt8) : Inflate :=
  { s with bits := s.bits ++ streamBits bytes }

theorem gain_append (s : Inflate) (first second : List UInt8) :
    s.gain (first ++ second) = (s.gain first).gain second := by
  simp only [gain, streamBits_append, List.append_assoc]

/-- Bytes may be read with those before them, or when all items before them have been read. -/
theorem drain_gain (s : Inflate) (bytes : List UInt8) :
    (s.gain bytes).drain = s.drain.bind fun t => (t.gain bytes).drain := by
  have hwhole : (streamBits bytes).length % 8 = 0 := by
    rw [length_streamBits]
    omega
  induction hlength : s.bits.length using Nat.strongRecOn generalizing s with
  | ind length ih =>
    have hsteady := steady_item s.output s.phase
    cases hitem : item s.output s.phase s.bits with
    | ok next bits =>
      have htakes := hsteady.takes hitem
      have hmore : item (s.gain bytes).output (s.gain bytes).phase (s.gain bytes).bits =
          .ok next (bits ++ streamBits bytes) := hsteady.ok hitem hwhole
      rw [drain_of_ok hmore, drain_of_ok hitem]
      exact ih bits.length (by omega) ⟨next.1, bits, next.2⟩ rfl
    | error stop bits =>
      cases stop with
      | starved => rw [drain_of_starved hitem, Option.bind_some]
      | corrupt =>
        obtain ⟨rest, hcorrupt⟩ := hsteady.corrupt hitem hwhole
        have hmore : (s.gain bytes).drain = none := drain_of_corrupt hcorrupt
        rw [hmore, drain_of_corrupt hitem, Option.bind_none]

/-! ## Pieces -/

/-- A stream that has ended keeps no bits. -/
def closed (s : Inflate) : Inflate :=
  match s.phase with
  | .ended => { s with bits := [] }
  | _ => s

theorem closed_of_ended (h : s.phase = .ended) : s.closed = ⟨.ended, [], s.output⟩ := by
  rw [closed, h]

theorem closed_of_open (h : s.phase ≠ .ended) : s.closed = s := by
  unfold closed
  split
  · exact absurd ‹_› h
  · rfl

theorem push_eq (s : Inflate) (bytes : List UInt8) :
    s.push bytes = (s.gain bytes).drain.map fun next => (next.output.toList.drop s.output.size, next.closed) := by
  have hpush : s.push bytes = (s.gain bytes).drain.bind fun next =>
      match next.phase with
      | .ended => some (next.output.toList.drop s.output.size, { next with bits := [] })
      | _ => some (next.output.toList.drop s.output.size, next) := rfl
  rw [hpush]
  cases (s.gain bytes).drain with
  | none => rfl
  | some next =>
    obtain ⟨phase, bits, output⟩ := next
    cases phase <;> rfl

/-- After the end of a stream nothing counts. -/
theorem push_of_ended (h : s.phase = .ended) (bytes : List UInt8) :
    s.push bytes = some ([], ⟨.ended, [], s.output⟩) := by
  have hdrain : (s.gain bytes).drain = some (s.gain bytes) := drain_of_ended h
  have hclosed : (s.gain bytes).closed = ⟨.ended, [], s.output⟩ := closed_of_ended h
  have hnone : (s.gain bytes).output.toList.drop s.output.size = [] :=
    List.drop_eq_nil_of_le (Nat.le_of_eq Array.length_toList)
  rw [push_eq, hdrain, Option.map_some, hclosed, hnone]

/-- What two runs add one after the other. -/
theorem added_append {a b c : Array UInt8} (hab : a.toList <+: b.toList) (hbc : b.toList <+: c.toList) :
    b.toList.drop a.size ++ c.toList.drop b.size = c.toList.drop a.size := by
  obtain ⟨more, hmore⟩ := hab
  obtain ⟨rest, hrest⟩ := hbc
  rw [← hrest, ← Array.length_toList, ← Array.length_toList, List.drop_left, ← hmore, List.append_assoc,
    List.drop_left, List.drop_left]

/-- Two pieces inflate to what they inflate to as one. -/
theorem push_append (s : Inflate) (first second : List UInt8) :
    s.push (first ++ second) = (s.push first).bind fun (added, t) =>
      (t.push second).map fun (more, u) => (added ++ more, u) := by
  rw [push_eq s first, push_eq s, gain_append, drain_gain]
  cases hfirst : (s.gain first).drain with
  | none => rfl
  | some t =>
    have hadded : s.output.toList <+: t.output.toList := prefix_of_drain (s := s.gain first) hfirst
    simp only [Option.bind_some, Option.map_some]
    by_cases hended : t.phase = .ended
    · have hdrain : (t.gain second).drain = some (t.gain second) := drain_of_ended hended
      have hclosed : (t.gain second).closed = ⟨.ended, [], t.output⟩ := closed_of_ended hended
      rw [closed_of_ended hended, push_of_ended rfl, hdrain, Option.map_some, Option.map_some, hclosed,
        List.append_nil]
      rfl
    · rw [closed_of_open hended, push_eq t]
      cases hsecond : (t.gain second).drain with
      | none => rfl
      | some u =>
        have hmore : t.output.toList <+: u.output.toList := prefix_of_drain (s := t.gain second) hsecond
        simp only [Option.map_some, added_append hadded hmore]

end Inflate

end MovieVm.Deflate
