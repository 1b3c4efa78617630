import CyberCache.Lib.CStrings
import CyberCache.Optimizer.Recompression

/-!
# Options of a client resource

The extension makes a resource from an array of options, which it interprets in the order of the
array on top of the defaults of a domain. Passwords are hashed with the method that is known when
they are met, and names of options are compared up to their first zero byte. Name resolution, the
number parser of PHP and the hash functions are parameters.
-/

namespace CyberCache

inductive HashMethod where
  | invalid | xxhash | farmhash | spookyhash | murmurhash2 | murmurhash3
deriving DecidableEq, Repr

/-- The fields that options can set; the defaults of a domain have the same ones. -/
structure Resource where
  address : UInt32
  port : UInt16
  persistent : Bool
  compressor : Compressor
  marker : Bool
  admin : UInt64
  user : UInt64
  threshold : UInt32
  hasher : HashMethod

structure ClientGlobals where
  enterprise : Bool
  resolveHost : List UInt8 → UInt32
  zendAtoi : List UInt8 → Int
  zendAtol : List UInt8 → Int
  hash : HashMethod → List UInt8 → UInt64
  /-- The defaults of the domain that `is_fpc` selects. -/
  domain : Resource

abbrev OptionEntry := List UInt8 × List UInt8

/-- An array with string keys and string values; both can hold zero bytes. -/
structure OptionArray where
  entries : List OptionEntry
  nodup : (entries.map Prod.fst).Nodup

/-- What a binary string is for functions of C. -/
def cstr (s : List UInt8) : List UInt8 := s.takeWhile (· ≠ 0)

def bytesOf (s : String) : List UInt8 := s.toList.map Char.toUInt8

inductive Setting where
  | address (a : UInt32)
  | port (p : UInt16)
  | persistent (b : Bool)
  | compressor (c : Compressor)
  | marker (b : Bool)
  | admin (h : UInt64)
  | user (h : UInt64)
  | threshold (t : UInt32)
  | hasher (m : HashMethod)
  | unknown

namespace Setting

/-- The value makes `create()` fail. -/
def refused : Setting → Bool
  | .address a => a = 0xFFFFFFFF
  | .port p => p = 0
  | .compressor c => c = .none
  | .threshold t => t = 0
  | .hasher m => m = .invalid
  | _ => false

def SameOption (s t : Setting) : Prop := s.ctorIdx = t.ctorIdx

end Setting

def Resource.set (res : Resource) : Setting → Resource
  | .address a => { res with address := a }
  | .port p => { res with port := p }
  | .persistent b => { res with persistent := b }
  | .compressor c => { res with compressor := c }
  | .marker b => { res with marker := b }
  | .admin h => { res with admin := h }
  | .user h => { res with user := h }
  | .threshold t => { res with threshold := t }
  | .hasher m => { res with hasher := m }
  | .unknown => res

namespace ClientGlobals

def compressorNames : List (List UInt8 × Compressor) :=
  [(bytesOf "lzf", .lzf), (bytesOf "snappy", .snappy), (bytesOf "lz4", .lz4),
    (bytesOf "lzss3", .lzss3), (bytesOf "brotli", .brotli), (bytesOf "zstd", .zstd),
    (bytesOf "zlib", .zlib), (bytesOf "lzham", .lzham)]

def hasherNames : List (List UInt8 × HashMethod) :=
  [(bytesOf "xxhash", .xxhash), (bytesOf "farmhash", .farmhash),
    (bytesOf "spookyhash", .spookyhash),
    (bytesOf "murmurhash2", .murmurhash2), (bytesOf "murmurhash3", .murmurhash3)]

def getHasherOption (s : List UInt8) : HashMethod := (hasherNames.lookup (cstr s)).getD .invalid

variable (g : ClientGlobals)

def getAddressOption (s : List UInt8) : UInt32 := g.resolveHost (cstr s)

def getPortOption (s : List UInt8) : UInt16 :=
  let port := g.zendAtoi s
  if port < 1000 ∨ port > 65535 then 0 else .ofNat port.toNat

def getBooleanOption (s : List UInt8) : Bool :=
  (["on", "yes", "true"].map bytesOf).contains (s.map CString.tolower) || g.zendAtoi s != 0

/-- The result is converted to sixteen bits. -/
def getThresholdOption (s : List UInt8) : UInt32 :=
  let threshold := g.zendAtol s
  if threshold < 1 ∨ threshold > 4294967295 then 0 else (UInt16.ofNat threshold.toNat).toUInt32

def getCompressorOption (s : List UInt8) : Compressor :=
  match compressorNames.lookup (cstr s) with
  | some .brotli => if g.enterprise then .brotli else .none
  | some c => c
  | none => .none

def getPasswordOption (s : List UInt8) (method : HashMethod) : UInt64 :=
  if s = [] then 0 else g.hash (if method = .invalid then g.domain.hasher else method) s

/-- What an entry sets if it is met while `hasher` is the hash method of the resource. -/
def setting (hasher : HashMethod) (entry : OptionEntry) : Setting :=
  let option := cstr entry.1
  let value := entry.2
  if option = bytesOf "address" then .address (g.getAddressOption value)
  else if option = bytesOf "port" then .port (g.getPortOption value)
  else if option = bytesOf "persistent" then .persistent (g.getBooleanOption value)
  else if option = bytesOf "compressor" then .compressor (g.getCompressorOption value)
  else if option = bytesOf "marker" then .marker (g.getBooleanOption value)
  else if option = bytesOf "admin" then .admin (g.getPasswordOption value hasher)
  else if option = bytesOf "user" then .user (g.getPasswordOption value hasher)
  else if option = bytesOf "threshold" then .threshold (g.getThresholdOption value)
  else if option = bytesOf "hasher" then .hasher (getHasherOption value)
  else .unknown

def createStep (state : Resource × Bool) (entry : OptionEntry) : Resource × Bool :=
  let s := g.setting state.1.hasher entry
  (state.1.set s, state.2 && !s.refused)

def create (options : OptionArray) : Option Resource :=
  let (res, result) := options.entries.foldl g.createStep (g.domain, true)
  if result then some res else none

/-- What an entry says with the hash method of the domain. -/
def meaning (entry : OptionEntry) : Setting := g.setting g.domain.hasher entry

/-- What the entries make of a resource if none of them is refused. -/
def apply (res : Resource) (entries : List OptionEntry) : Resource :=
  entries.foldl (fun res entry => res.set (g.setting res.hasher entry)) res

end ClientGlobals

namespace Resource

theorem set_comm (res : Resource) {s t : Setting} (h : s.SameOption t → s = t) :
    (res.set s).set t = (res.set t).set s := by
  by_cases hsame : s.SameOption t
  · rw [h hsame]
  · cases s <;> cases t <;> first | rfl | exact absurd rfl hsame

theorem hasher_set (res : Resource) (s : Setting) :
    (res.set s).hasher = res.hasher ∨ s = .hasher (res.set s).hasher := by
  cases s <;> simp [set]

end Resource

namespace ClientGlobals

variable {g : ClientGlobals} {e : OptionEntry} {l : List OptionEntry} {m : HashMethod}
  {res : Resource}

theorem refused_setting (m m' : HashMethod) (e : OptionEntry) :
    (g.setting m e).refused = (g.setting m' e).refused := by
  simp only [setting]
  split_ifs <;> rfl

theorem foldl_createStep (entries : List OptionEntry) (res : Resource) (result : Bool) :
    entries.foldl g.createStep (res, result) =
      (g.apply res entries, result && !entries.any fun e => (g.meaning e).refused) := by
  induction entries generalizing res result with
  | nil => simp [apply]
  | cons e entries ih =>
    rw [List.foldl_cons, createStep, ih, refused_setting _ g.domain.hasher]
    simp [apply, meaning, Bool.and_assoc]

theorem create_eq (options : OptionArray) :
    g.create options =
      if options.entries.any fun e => (g.meaning e).refused then none
      else some (g.apply g.domain options.entries) := by
  rw [create, foldl_createStep]
  cases options.entries.any fun e => (g.meaning e).refused <;> rfl

theorem apply_cons (res : Resource) (e : OptionEntry) (l : List OptionEntry) :
    g.apply res (e :: l) = g.apply (res.set (g.setting res.hasher e)) l :=
  List.foldl_cons ..

theorem apply_append (res : Resource) (l l' : List OptionEntry) :
    g.apply res (l ++ l') = g.apply (g.apply res l) l' :=
  List.foldl_append

theorem hasher_apply (hl : ∀ e ∈ l, ∀ m k, g.setting m e ≠ .hasher k) :
    (g.apply res l).hasher = res.hasher := by
  induction l generalizing res with
  | nil => rfl
  | cons e l ih =>
    obtain ⟨he, hl⟩ := List.forall_mem_cons.mp hl
    exact (ih hl).trans ((res.hasher_set _).resolve_right (he _ _))

/-! ## Hash methods before passwords -/

def optionNames : List (List UInt8) :=
  ["address", "port", "persistent", "compressor", "marker", "admin", "user", "threshold",
    "hasher"].map bytesOf

def isHasher (e : OptionEntry) : Bool := e.1 = bytesOf "hasher"

def isPassword (e : OptionEntry) : Bool := e.1 = bytesOf "admin" ∨ e.1 = bytesOf "user"

/-- The hash method that comes before an entry, if there is one. -/
def hasherBefore (l : List OptionEntry) (e : OptionEntry) : Option OptionEntry :=
  (l.takeWhile (· ≠ e)).find? isHasher

def methodOf (initial : HashMethod) : Option OptionEntry → HashMethod
  | some h => getHasherOption h.2
  | none => initial

theorem cstr_eq {s : List UInt8} (h : 0 ∉ s) : cstr s = s :=
  List.takeWhile_eq_self_iff.mpr fun _ hb => decide_eq_true fun heq => h (heq ▸ hb)

theorem ctorIdx_setting (hkey : 0 ∉ e.1) (m : HashMethod) :
    (g.setting m e).ctorIdx = optionNames.idxOf e.1 := by
  simp only [setting, cstr_eq hkey]
  split_ifs
  case neg =>
    rw [List.idxOf_eq_length (by simp [optionNames, *])]
    rfl
  all_goals simp_all; rfl

/-- Different keys without zero bytes are different options, unless they are unknown. -/
theorem setting_eq_of_sameOption {e' : OptionEntry} {m' : HashMethod} (hkey : 0 ∉ e.1)
    (hkey' : 0 ∉ e'.1) (hne : e.1 ≠ e'.1) (hsame : (g.setting m e).SameOption (g.setting m' e')) :
    g.setting m e = g.setting m' e' := by
  have hidx : optionNames.idxOf e.1 = optionNames.idxOf e'.1 := by
    rwa [Setting.SameOption, ctorIdx_setting hkey, ctorIdx_setting hkey'] at hsame
  have hnot : e.1 ∉ optionNames := fun hmem => hne ((List.idxOf_inj hmem).mp hidx)
  have hunknown : (g.setting m e).ctorIdx = 9 := by
    rw [ctorIdx_setting hkey, List.idxOf_eq_length hnot]
    rfl
  rw [Setting.SameOption, hunknown] at hsame
  cases hs : g.setting m e <;> cases ht : g.setting m' e' <;> simp_all [Setting.ctorIdx]

theorem setting_isHasher (he : isHasher e) (m : HashMethod) :
    g.setting m e = .hasher (getHasherOption e.2) := by
  have hkey : cstr e.1 = bytesOf "hasher" := by rw [of_decide_eq_true he]; decide
  simp only [setting, hkey]
  rfl

theorem setting_ne_hasher (hkey : 0 ∉ e.1) (he : isHasher e = false) (m k : HashMethod) :
    g.setting m e ≠ .hasher k := by
  have hnot := of_decide_eq_false he
  simp only [setting, cstr_eq hkey]
  split_ifs <;> simp

theorem setting_of_not_isPassword (hkey : 0 ∉ e.1) (he : isPassword e = false) (m m' : HashMethod) :
    g.setting m e = g.setting m' e := by
  have hnot := of_decide_eq_false he
  rw [not_or] at hnot
  simp only [setting, cstr_eq hkey, hnot.1, hnot.2, if_false]

theorem hasher_apply_eq (hkeys : ∀ e ∈ l, 0 ∉ e.1) (hnodup : (l.map Prod.fst).Nodup) :
    (g.apply res l).hasher = methodOf res.hasher (l.find? isHasher) := by
  induction l generalizing res with
  | nil => rfl
  | cons e l ih =>
    obtain ⟨hkey, hkeys⟩ := List.forall_mem_cons.mp hkeys
    obtain ⟨hout, hnodup⟩ := List.nodup_cons.mp hnodup
    rw [apply_cons, List.find?_cons]
    cases he : isHasher e with
    | true =>
      have hrest : ∀ e' ∈ l, isHasher e' = false := fun e' he' => decide_eq_false fun heq =>
        hout (of_decide_eq_true he ▸ heq ▸ List.mem_map_of_mem he')
      rw [hasher_apply fun e' he' => setting_ne_hasher (hkeys e' he') (hrest e' he'),
        setting_isHasher he]
      rfl
    | false =>
      rw [ih hkeys hnodup, (res.hasher_set _).resolve_right (setting_ne_hasher hkey he _ _)]

/-- Every entry is interpreted with the hash method that comes before it. -/
theorem apply_eq_foldl {pre post : List OptionEntry} (hl : l = pre ++ post)
    (hkeys : ∀ e ∈ l, 0 ∉ e.1) (hnodup : (l.map Prod.fst).Nodup) :
    g.apply (g.apply g.domain pre) post = post.foldl
      (fun res e => res.set (g.setting (methodOf g.domain.hasher (hasherBefore l e)) e))
      (g.apply g.domain pre) := by
  induction post generalizing pre with
  | nil => rfl
  | cons e post ih =>
    have hbefore : hasherBefore l e = pre.find? isHasher := by
      have hout : ∀ z ∈ pre, z ≠ e := by
        rintro z hz rfl
        rw [hl, List.map_append, List.map_cons] at hnodup
        exact (List.nodup_middle.mp hnodup).notMem (by simp [List.mem_map_of_mem hz])
      rw [hasherBefore, hl, List.takeWhile_append_of_pos (by simpa using hout)]
      simp
    have hmethod : (g.apply g.domain pre).hasher = methodOf g.domain.hasher (hasherBefore l e) := by
      rw [hbefore]
      subst hl
      refine hasher_apply_eq (fun z hz => hkeys z (by simp [hz])) ?_
      rw [List.map_append] at hnodup
      exact hnodup.of_append_left
    have hstep := @ih (pre ++ [e]) (by rw [hl, List.append_cons])
    rw [apply_append] at hstep
    rw [apply_cons, List.foldl_cons, ← hmethod]
    exact hstep

theorem create_perm (g : ClientGlobals) (options other : OptionArray)
    (hkeys : ∀ e ∈ options.entries, 0 ∉ e.1) (hperm : other.entries.Perm options.entries)
    (hplace : ∀ e ∈ options.entries, isPassword e →
      hasherBefore other.entries e = hasherBefore options.entries e) :
    g.create other = g.create options := by
  have hother : ∀ e ∈ other.entries, 0 ∉ e.1 := fun e he => hkeys e (hperm.subset he)
  have hsetting : ∀ e ∈ other.entries,
      g.setting (methodOf g.domain.hasher (hasherBefore other.entries e)) e =
        g.setting (methodOf g.domain.hasher (hasherBefore options.entries e)) e := by
    intro e he
    cases hpassword : isPassword e with
    | true => rw [hplace e (hperm.subset he) hpassword]
    | false => exact setting_of_not_isPassword (hother e he) hpassword _ _
  rw [create_eq, create_eq, hperm.any_eq]
  have happly : g.apply g.domain other.entries = g.apply g.domain options.entries := by
    have hleft := apply_eq_foldl (g := g) (List.nil_append _).symm hother other.nodup
    have hright := apply_eq_foldl (g := g) (List.nil_append _).symm hkeys options.nodup
    refine hleft.trans (.trans ?_ hright.symm)
    rw [List.foldl_ext _ _ _ fun res e he => congrArg res.set (hsetting e he)]
    refine hperm.foldl_eq' (fun e he e' he' res => res.set_comm fun hsame => ?_) _
    by_cases heq : e = e'
    · rw [heq]
    · have hne : e.1 ≠ e'.1 := fun hkey => heq (List.inj_on_of_nodup_map other.nodup he he' hkey)
      exact setting_eq_of_sameOption (hother e he) (hother e' he') hne hsame
  rw [happly]

/-- The default method is MurmurHash2, and hash values tell the methods apart. -/
def localGlobals : ClientGlobals where
  enterprise := true
  resolveHost _ := 0
  zendAtoi _ := 0
  zendAtol _ := 0
  hash method _ := .ofNat method.ctorIdx
  domain := ⟨0x0100007F, 8120, true, .snappy, true, 0, 0, 256, .murmurhash2⟩

theorem create_perm_of_three : ∃ (g : ClientGlobals) (a a' : OptionArray),
    a'.entries ≠ a.entries ∧ (g.create a).map Resource.user = some 1 ∧
    g.create a' = g.create a := by
  let hasher : OptionEntry := (bytesOf "hasher", bytesOf "xxhash")
  let user : OptionEntry := (bytesOf "user", [97])
  let marker : OptionEntry := (bytesOf "marker", [])
  exact ⟨localGlobals, ⟨[hasher, user, marker], by decide⟩, ⟨[marker, hasher, user], by decide⟩,
    by decide, by decide, create_perm _ _ _ (by decide) (by decide) (by decide)⟩

/-- Two of the options that differ by a zero byte, and a password before or after the hash method
that differs from the default one. -/
theorem create_depends_on_order :
    ∃ (g : ClientGlobals) (a a' b b' : OptionArray),
      a'.entries.Perm a.entries ∧ g.create a' ≠ g.create a ∧
      b'.entries.Perm b.entries ∧ g.create b' ≠ g.create b := by
  refine ⟨localGlobals, ⟨[(bytesOf "user", [97]), (bytesOf "hasher", bytesOf "xxhash")], by decide⟩,
    ⟨[(bytesOf "hasher", bytesOf "xxhash"), (bytesOf "user", [97])], by decide⟩,
    ⟨[(bytesOf "marker", bytesOf "on"), (bytesOf "marker" ++ [0], [])], by decide⟩,
    ⟨[(bytesOf "marker" ++ [0], []), (bytesOf "marker", bytesOf "on")], by decide⟩,
    .swap .., fun h => ?_, .swap .., fun h => ?_⟩
  · exact absurd (congrArg (Option.map Resource.user) h) (by decide)
  · exact absurd (congrArg (Option.map Resource.marker) h) (by decide)

end ClientGlobals

end CyberCache
