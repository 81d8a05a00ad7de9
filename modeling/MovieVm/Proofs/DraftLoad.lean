import MovieVm.Proofs.Chunks
import MovieVm.Proofs.ContentScan
import MovieVm.Proofs.FrameRate
import MovieVm.Proofs.Rect
import MovieVm.Proofs.Stored

/-!
# Drafts load

The file that a draft is encoded as is loaded without a fault, and what is loaded is what the draft says.
-/

namespace MovieVm.Movie

open Bytecode (length_littleEndian)

namespace Draft

/-! ## Drafts that can be written -/

/-- Contents that can be written, bounds of 31 bits, a frame rate of whole 256ths, and no more bytes than the
preamble can count. -/
structure Valid (d : Draft) : Prop where
  contents : ∀ c ∈ d.contents, c.Valid
  bounds : d.bounds.Fits
  frameRate : ∃ n, Fixed d.frameRate n
  size : d.body.length + Preamble.size < 2 ^ 32

/-- The header that is loaded. A negative zero is no frame rate of its own. -/
def header (d : Draft) : Header where
  compressed := d.compressed
  version := d.version
  fileLength := d.body.length + Preamble.size
  bounds := d.bounds
  frameRate := d.frameRate.abs
  frameCount := min 65535 (Content.shown d.contents)

/-- Where the first tag stands. -/
def tagsStart (d : Draft) : Nat :=
  Preamble.size + d.bounds.encode.length + 4

/-- A load of these bytes succeeds and leaves the file of the draft. -/
def Loads (d : Draft) (bytes : List UInt8) : Prop :=
  (Loader.load {} bytes).result = .ok () ∧
    ∃ f, (Loader.load {} bytes).loader.file? = some f ∧ f.Whole d.header d.tagsStart d.contents

/-- The tags with the one that ends the file. -/
def tags (d : Draft) : List UInt8 :=
  d.contents.flatMap Content.encoded ++ Tag.finish.encode []

/-- The eight bytes in front of the body. -/
def preamble (d : Draft) : List UInt8 :=
  signature d.compressed ++ [d.version] ++ littleEndian 4 (d.body.length + Preamble.size)

/-- The body as it may stand behind the preamble: any stream that inflates to it, when it is compressed. -/
def IsPacked (d : Draft) (packed : List UInt8) : Prop :=
  if d.compressed then ∃ s, Deflate.Inflate.push {} packed = some (d.body, s) else packed = d.body

variable {d : Draft}

theorem body_eq (d : Draft) : d.body =
    d.bounds.encode ++ (littleEndian 2 (rate d.frameRate) ++ (littleEndian 2 d.frameCount ++ d.tags)) := by
  simp only [body, tags, List.append_assoc]
  rfl

theorem encode_eq (d : Draft) :
    d.encode = d.preamble ++ if d.compressed then Deflate.store d.body else d.body := rfl

/-- The body of a tag is not larger than the file. -/
theorem Valid.body_lt (h : d.Valid) {c : Content} (hc : c ∈ d.contents) : c.toTag.2.length < 256 ^ 4 := by
  have htag : c.toTag.2.length ≤ c.encoded.length := by
    unfold Content.encoded Tag.encode
    split <;> simp only [List.length_append] <;> omega
  have htags : c.encoded.length ≤ d.body.length := by
    obtain ⟨before, after, hsplit⟩ := List.append_of_mem hc
    simp only [body_eq, tags, hsplit, List.flatMap_append, List.flatMap_cons, List.length_append]
    omega
  have hsize := h.size
  omega

theorem toTag_eq_showFrame {c : Content} (hc : c.Valid) : c.toTag.1 = Tag.showFrame ↔ c = .showFrame := by
  cases c with
  | tag => exact hc.elim
  | showFrame => exact iff_of_true rfl rfl
  | _ => exact iff_of_false (of_decide_eq_false rfl) nofun

theorem Valid.frameCount_eq (h : d.Valid) : d.frameCount = min 65535 (Content.shown d.contents) := by
  have hcount : (d.contents.countP fun c => c.toTag.1 = Tag.showFrame) = Content.shown d.contents := by
    apply List.countP_congr
    intro c hc
    rw [decide_eq_true_eq, beq_iff_eq]
    exact toTag_eq_showFrame (h.contents c hc)
  rw [frameCount, hcount]

/-! ## The header -/

/-- The file that the header opens. -/
def opened (d : Draft) : File where
  header := d.header
  bytesLoaded := d.tagsStart

/-- A field of some bytes. -/
theorem take_drop_field {before field after : List UInt8} {i n : Nat} (hbefore : before.length = i)
    (hfield : field.length = n) : ((before ++ (field ++ after)).drop i).take n = field := by
  rw [List.drop_left' hbefore, List.take_left' hfield]

theorem Valid.readHeader (h : d.Valid) :
    Preamble.readHeader ⟨d.compressed, d.version, d.body.length + Preamble.size⟩ d.body =
      .ok (some (d.opened, d.tags)) := by
  obtain ⟨first, hhead, hsize⟩ := d.bounds.head?_encode
  obtain ⟨n, hrate⟩ := h.frameRate
  have hbody := d.body_eq
  have hfirst : d.body.head? = some first := by
    rw [hbody, List.head?_append, hhead]
    rfl
  have hlong : Rect.encodedSize first + 4 ≤ d.body.length := by
    rw [hbody, hsize]
    simp only [List.length_append, length_littleEndian]
    omega
  have hbounds : d.body.take (Rect.encodedSize first) = d.bounds.encode := by
    rw [hbody, hsize, List.take_left]
  have hrateField : (d.body.drop (Rect.encodedSize first)).take 2 = littleEndian 2 n := by
    rw [hbody, hsize, hrate.rate_eq]
    exact take_drop_field rfl (length_littleEndian _ _)
  have hcountField : (d.body.drop (Rect.encodedSize first + 2)).take 2 = littleEndian 2 d.frameCount := by
    rw [hbody, hsize, ← List.append_assoc]
    exact take_drop_field (by simp [length_littleEndian]) (length_littleEndian _ _)
  have htags : d.body.drop (Rect.encodedSize first + 4) = d.tags := by
    rw [hbody, hsize, ← List.append_assoc, ← List.append_assoc]
    exact List.drop_left' (by simp [length_littleEndian])
  have hbound := hrate.bound
  have hcount : d.frameCount ≤ 65535 := Nat.min_le_left _ _
  rw [Preamble.readHeader_of_long hlong hfirst, hbounds, Rect.decode_encode h.bounds, htags]
  simp only [Except.map, Preamble.openedFile, hrateField, hcountField, ofLittleEndian_mod]
  rw [Nat.mod_eq_of_lt (by omega), Nat.mod_eq_of_lt (by omega), hrate.fixedPoint_eq, h.frameCount_eq, hsize]
  rfl

/-! ## The preamble -/

theorem length_signature (compressed : Bool) : (signature compressed).length = 3 := by
  cases compressed <;> rfl

theorem length_preamble (d : Draft) : d.preamble.length = Preamble.size := by
  simp only [preamble, List.length_append, length_signature, length_littleEndian, List.length_singleton,
    Preamble.size]

theorem ofUtf8Lossy_signature (compressed : Bool) :
    Text.ofUtf8Lossy (signature compressed) = if compressed then "CWS" else "FWS" := by
  cases compressed <;> decide

theorem Valid.ofBytes (h : d.Valid) (packed : List UInt8) : Preamble.ofBytes (d.preamble ++ packed) =
    .ok ⟨d.compressed, d.version, d.body.length + Preamble.size⟩ := by
  have hsize : d.body.length + Preamble.size < 256 ^ 4 := h.size
  have hlength : ofLittleEndian (littleEndian 4 (d.body.length + Preamble.size)) = d.body.length + Preamble.size := by
    rw [ofLittleEndian_mod, Nat.mod_eq_of_lt hsize]
  have hsignature : d.preamble.take 3 = signature d.compressed := by
    rw [preamble, List.append_assoc]
    exact List.take_left' (length_signature _)
  have hversion : d.preamble[3]? = some d.version := by
    rw [preamble, List.append_assoc, List.getElem?_append_right (Nat.le_of_eq (length_signature _)),
      length_signature]
    rfl
  have hfield : (d.preamble.drop 4).take 4 = littleEndian 4 (d.body.length + Preamble.size) := by
    have hplace : (signature d.compressed ++ [d.version]).length = 4 := by
      rw [List.length_append, length_signature, List.length_singleton]
    rw [preamble, List.drop_left' hplace]
    exact List.take_of_length_le (Nat.le_of_eq (length_littleEndian _ _))
  rw [Preamble.ofBytes_append (Nat.le_of_eq d.length_preamble.symm)]
  simp only [Preamble.ofBytes, hsignature, hversion, hfield, hlength, ofUtf8Lossy_signature, Option.getD_some]
  cases d.compressed <;> rfl

/-- The whole file is received as its body behind its preamble. -/
theorem Valid.push (h : d.Valid) {packed : List UInt8} (hpacked : d.IsPacked packed) :
    ∃ intake, Reception.start.push (d.preamble ++ packed) =
      .ok (.header ⟨d.compressed, d.version, d.body.length + Preamble.size⟩ intake d.body) := by
  have hlong : ¬ (d.preamble ++ packed).length < Preamble.size := by
    rw [List.length_append, length_preamble]
    omega
  have hrest : (d.preamble ++ packed).drop Preamble.size = packed := List.drop_left' d.length_preamble
  rw [IsPacked] at hpacked
  rw [Reception.start, Reception.push, List.nil_append, if_neg hlong, h.ofBytes packed, Except.ok_bind, hrest]
  cases hcompressed : d.compressed with
  | false =>
    rw [hcompressed] at hpacked
    obtain rfl := hpacked
    exact ⟨.plain, rfl⟩
  | true =>
    rw [hcompressed] at hpacked
    obtain ⟨s, hs⟩ := hpacked
    have hinflated : (Intake.deflated {}).push packed = .ok (d.body, .deflated s) := by
      simp only [Intake.push, hs]
    refine ⟨.deflated s, ?_⟩
    simp only [if_true, hinflated]
    rfl

/-! ## Loads -/

/-- A draft is loaded from its body however that is compressed. -/
theorem Valid.loads (h : d.Valid) {packed : List UInt8} (hpacked : d.IsPacked packed) :
    d.Loads (d.preamble ++ packed) := by
  obtain ⟨intake, hpush⟩ := h.push hpacked
  -- The tags are scanned from the file that the header opens.
  have hbodies : ∀ c ∈ d.contents, c.toTag.2.length < 256 ^ 4 := fun c hc => h.body_lt hc
  obtain ⟨f, hf, hscan⟩ := (File.follows_nil d.header d.tagsStart).verdict h.contents hbodies (Tag.finish.encode [])
  obtain ⟨g, hend, hwhole⟩ := hf.finish
  have hverdict : (Reception.header ⟨d.compressed, d.version, d.body.length + Preamble.size⟩ intake d.body).verdict [] =
      (.ok (), some g) := by
    rw [Reception.verdict, Preamble.verdict_of_readHeader h.readHeader, List.append_nil]
    exact hscan.trans hend
  obtain ⟨hresult, hfile⟩ := Prod.mk.inj ((Loader.load_of_push hpush (by rintro _ ⟨⟩)).trans hverdict)
  exact ⟨hresult, g, hfile, hwhole⟩

theorem isPacked_store (d : Draft) : d.IsPacked (if d.compressed then Deflate.store d.body else d.body) := by
  unfold IsPacked
  split
  · exact Deflate.Inflate.push_store d.body
  · rfl

/-- What is built of a draft is loaded without a fault, and the loaded file says what the draft says. A
compressed draft may be packed in any way that inflates to its body; the stream of stored blocks is one. -/
theorem load_encode (d : Draft) (h : d.Valid) :
    d.Loads d.encode ∧ ∀ packed, d.IsPacked packed → d.Loads (d.preamble ++ packed) := by
  constructor
  · rw [encode_eq]
    exact h.loads d.isPacked_store
  · intro packed hpacked
    exact h.loads hpacked

/-- A compressed file in two frames, the second of which is not shown. -/
def titled : Draft where
  compressed := true
  contents := [.fileAttributes Content.as3Flag, .backgroundColor 0x1ffffff, .frameLabel "main",
    .abc "Main" Content.lazyFlag [1, 2, 3], .image 1 [0xff], .showFrame, .font 2 "Sans", .symbolClass 1 "Logo",
    .exported 2 "face", .binaryData 1 [7], .abcDefine []]

theorem load_encode_titled : titled.Valid ∧ titled.IsPacked (Deflate.store titled.body) ∧
    titled.Loads titled.encode ∧ titled.Loads (titled.preamble ++ Deflate.store titled.body) :=
  have valid : titled.Valid :=
    { contents := by decide +kernel
      bounds := by decide
      frameRate := ⟨6144, by decide +kernel, by decide, by decide +kernel⟩
      size := by decide +kernel }
  have packed : titled.IsPacked (Deflate.store titled.body) := titled.isPacked_store
  have loads := load_encode titled valid
  ⟨valid, packed, loads.1, loads.2 _ packed⟩

end Draft

end MovieVm.Movie
