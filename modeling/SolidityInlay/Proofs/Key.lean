import SolidityInlay.Compile.Request
import SolidityInlay.Proofs.Store

/-!
# Which requests share a content key

The message hashed for a request has the source first, without its length, then a zero and the
options. Options can be read off their bytes, but where the source ends cannot be seen: a source
that goes on with a zero and with the beginning of another request's options may give that request's
message. Those pairs are described exactly. Such a source contains a zero, so requests without one
are told apart by their messages, and share a key or a row of a store only if the hash collides.

Main definitions: `CompilerOptions.bytes`, `Request.message`, `Request.Absorbs`, `Sha256.Collide`.
-/

namespace SolidityInlay

/-! ## Bytes of texts and numbers -/

namespace Bytes

theorem ofString_injective {s t : String} (h : ofString s = ofString t) : s = t := by
  have read := congrArg toString? h
  rwa [toString?_ofString, toString?_ofString, Option.some.injEq] at read

theorem bigEndian_injective {width m n : Nat} (hm : m < 256 ^ width) (hn : n < 256 ^ width)
    (h : bigEndian width m = bigEndian width n) : m = n := by
  have read := congrArg toNatLittle (List.reverse_injective h)
  rwa [toNatLittle_littleEndian, toNatLittle_littleEndian, Nat.mod_eq_of_lt hm,
    Nat.mod_eq_of_lt hn] at read

/-- Only the character zero has a zero byte in its encoding. -/
theorem eq_zero_of_mem_utf8EncodeChar {c : Char} (h : 0 ∈ String.utf8EncodeChar c) :
    c = '\x00' := by
  have small : c.toNat < 0x80 := by
    by_contra large
    exact absurd (le_toNat_of_mem_utf8EncodeChar (Nat.le_of_not_lt large) h) (by decide)
  rw [utf8EncodeChar_of_lt small, List.mem_singleton] at h
  have zero := congrArg UInt8.toNat h
  rw [UInt8.toNat_ofNat_of_lt' (Nat.lt_trans small (by decide))] at zero
  exact Char.ext (UInt32.toNat_inj.1 zero.symm)

/-- A zero byte in an encoding is a zero character. -/
theorem zero_mem_of_zero_mem_ofString {s : String} (h : 0 ∈ ofString s) : '\x00' ∈ s.toList := by
  rw [ofString_eq_ofText, ofText, List.mem_flatMap] at h
  obtain ⟨c, hc, zero⟩ := h
  exact eq_zero_of_mem_utf8EncodeChar zero ▸ hc

end Bytes

/-! ## Bytes of options -/

namespace CompilerOptions

def versionBytes : Option String → Bytes
  | none => [0]
  | some version =>
    1 :: Bytes.bigEndian 8 (Bytes.ofString version).length ++ Bytes.ofString version

def bytes (o : CompilerOptions) : Bytes :=
  (if o.optimize then 1 else 0) :: Bytes.bigEndian 4 o.runs.toNat ++ versionBytes o.evmVersion

theorem versionBytes_injective {v w : Option String} (h : versionBytes v = versionBytes w) :
    v = w := by
  cases v with
  | none => cases w <;> simp_all [versionBytes]
  | some v =>
    cases w with
    | none => simp [versionBytes] at h
    | some w =>
      simp only [versionBytes, List.cons_append, List.cons.injEq, true_and] at h
      obtain ⟨_, texts⟩ := List.append_inj h (by simp)
      rw [Bytes.ofString_injective texts]

/-- Options are told apart by what is hashed for them. -/
theorem bytes_injective {o p : CompilerOptions} (h : o.bytes = p.bytes) : o = p := by
  simp only [bytes, List.cons_append, List.cons.injEq] at h
  obtain ⟨flag, rest⟩ := h
  obtain ⟨runs, version⟩ := List.append_inj rest (by simp)
  have optimize : o.optimize = p.optimize := by
    cases ho : o.optimize <;> cases hp : p.optimize <;> simp_all
  have runs := Bytes.bigEndian_injective o.runs.toNat_lt p.runs.toNat_lt runs
  have version := versionBytes_injective version
  cases o
  cases p
  simp_all [UInt32.toNat_inj]

theorem length_bytes (o : CompilerOptions) :
    o.bytes.length = 5 + (versionBytes o.evmVersion).length := by
  simp only [bytes, List.cons_append, List.length_cons, List.length_append, Bytes.length_bigEndian]
  omega

theorem length_versionBytes_pos (v : Option String) : 0 < (versionBytes v).length := by
  cases v <;> simp [versionBytes]

end CompilerOptions

/-! ## Messages -/

/-- Two messages that the hash does not tell apart. -/
def Sha256.Collide (m n : Bytes) : Prop := m ≠ n ∧ digest m = digest n

namespace Request

def message (r : Request) : Bytes := ContentKey.message r.source r.options

def key (r : Request) : ContentKey := .derive r.source r.options

/-- The source reads on over the end of another request's source: over the zero behind it and the
first bytes of its options. What is left of these is a zero and the own options. -/
def Absorbs (r short : Request) : Prop :=
  ∃ taken, Bytes.ofString r.source = Bytes.ofString short.source ++ 0 :: taken ∧
    short.options.bytes = taken ++ 0 :: r.options.bytes

theorem message_eq (r : Request) :
    r.message = Bytes.ofString r.source ++ 0 :: r.options.bytes := by
  cases h : r.options.evmVersion <;>
    simp [message, ContentKey.message, CompilerOptions.bytes, CompilerOptions.versionBytes, h]

/-- A source that reads on over another's end makes the same message. -/
theorem Absorbs.message_eq {r short : Request} (h : r.Absorbs short) :
    r.message = short.message := by
  obtain ⟨taken, source, options⟩ := h
  simp [Request.message_eq, source, options]

/-- A message with the shorter source first belongs to one request, or to one that absorbs it. -/
theorem eq_or_absorbs {a b : Request} {more : Bytes}
    (source : Bytes.ofString b.source = Bytes.ofString a.source ++ more)
    (rest : 0 :: a.options.bytes = more ++ 0 :: b.options.bytes) : a = b ∨ b.Absorbs a := by
  cases more with
  | nil =>
    simp only [List.append_nil, List.nil_append, List.cons.injEq, true_and] at source rest
    have sources := Bytes.ofString_injective source
    have options := CompilerOptions.bytes_injective rest
    cases a
    cases b
    exact .inl (by simp_all)
  | cons first taken =>
    simp only [List.cons_append, List.cons.injEq] at rest
    obtain ⟨rfl, options⟩ := rest
    exact .inr ⟨taken, source, options⟩

/-- Messages coincide for equal requests, and where one source reads on over the end of the other;
nowhere else. -/
theorem message_eq_iff {a b : Request} :
    a.message = b.message ↔ a = b ∨ a.Absorbs b ∨ b.Absorbs a := by
  constructor
  · intro h
    rw [message_eq, message_eq, List.append_eq_append_iff] at h
    obtain ⟨more, source, rest⟩ | ⟨more, source, rest⟩ := h
    · exact (eq_or_absorbs source rest).imp id .inr
    · exact (eq_or_absorbs source rest).imp Eq.symm .inl
  · rintro (rfl | h | h)
    · rfl
    · exact h.message_eq
    · exact h.message_eq.symm

/-- An absorbing source contains a zero. -/
theorem Absorbs.zero_mem {r short : Request} (h : r.Absorbs short) : '\x00' ∈ r.source.toList := by
  obtain ⟨taken, source, _⟩ := h
  exact Bytes.zero_mem_of_zero_mem_ofString (by simp [source])

/-- Only options with an EVM version are long enough to be absorbed. -/
theorem Absorbs.isSome_evmVersion {r short : Request} (h : r.Absorbs short) :
    short.options.evmVersion.isSome := by
  obtain ⟨taken, _, options⟩ := h
  cases version : short.options.evmVersion with
  | some _ => rfl
  | none =>
    have sizes := congrArg List.length options
    have own := CompilerOptions.length_versionBytes_pos r.options.evmVersion
    have absorbed : (CompilerOptions.versionBytes short.options.evmVersion).length = 1 := by
      rw [version]
      rfl
    simp only [List.length_append, List.length_cons, CompilerOptions.length_bytes] at sizes
    omega

/-- Equal keys come from equal messages or from a collision of the hash. -/
theorem message_eq_or_collide_of_key {a b : Request} (h : a.key = b.key) :
    a.message = b.message ∨ Sha256.Collide a.message b.message := by
  by_cases same : a.message = b.message
  · exact .inl same
  · exact .inr ⟨same, congrArg ContentKey.bytes h⟩

/-- Messages are equal for equal requests and for a request and one that absorbs it, and for no
others. Absorbing takes a zero in the source and an EVM version to absorb, so that requests without
zeros share a row of a store, and with it a key, only if their messages collide. -/
theorem keys_separate (a b : Request) :
    (a.message = b.message ↔ a = b ∨ a.Absorbs b ∨ b.Absorbs a) ∧
      (a.Absorbs b → '\x00' ∈ a.source.toList ∧ b.options.evmVersion.isSome) ∧
      ('\x00' ∉ a.source.toList → '\x00' ∉ b.source.toList →
        (a.message = b.message → a = b ∧ a.json = b.json) ∧
          ∀ build build', Store.rowName build a.key = Store.rowName build' b.key →
            build = build' ∧ (a = b ∨ Sha256.Collide a.message b.message)) := by
  refine ⟨message_eq_iff, fun h => ⟨h.zero_mem, h.isSome_evmVersion⟩, ?_⟩
  intro plainA plainB
  have separate (h : a.message = b.message) : a = b := by
    obtain eq | absorbs | absorbs := message_eq_iff.1 h
    · exact eq
    · exact absurd absorbs.zero_mem plainA
    · exact absurd absorbs.zero_mem plainB
  refine ⟨fun h => ⟨separate h, congrArg json (separate h)⟩, ?_⟩
  intro build build' row
  obtain ⟨builds, keys⟩ := Store.rowName_injective row
  exact ⟨builds, (message_eq_or_collide_of_key keys).imp separate id⟩

/-! ## An example -/

/-- A request with an EVM version that is the empty text. -/
def emptyVersion : Request := ⟨"contract A \x7b\x7d", ⟨false, 0, some ""⟩⟩

/-- A request without an EVM version whose source goes on as the options of the other do. -/
def zeroTail : Request :=
  ⟨"contract A \x7b\x7d\x00\x00\x00\x00\x00\x00\x01\x00", ⟨false, 0, none⟩⟩

theorem zeroTail_absorbs : zeroTail.Absorbs emptyVersion :=
  ⟨[0, 0, 0, 0, 0, 1, 0], by decide +kernel, by decide +kernel⟩

/-- The two ask the compiler for different things, and share a message, a key and every row. -/
theorem shared_message :
    zeroTail.message = emptyVersion.message ∧ zeroTail.source ≠ emptyVersion.source ∧
      zeroTail.options ≠ emptyVersion.options ∧ zeroTail.json ≠ emptyVersion.json ∧
      ∀ build, Store.rowName build zeroTail.key = Store.rowName build emptyVersion.key := by
  have messages : zeroTail.message = emptyVersion.message := zeroTail_absorbs.message_eq
  have keys : zeroTail.key = emptyVersion.key := by
    simp only [key, ContentKey.derive, ContentKey.mk.injEq]
    exact congrArg Sha256.digest messages
  refine ⟨messages, by decide, by decide, ?_, fun build => by rw [keys]⟩
  simp [json, zeroTail, emptyVersion]

end Request

end SolidityInlay
