import Mathlib.Data.List.DropRight
import OxideGate.Gateway
import OxideGate.TenantsTheorems

/-!
# Authentication (`authenticate` and `bearer` of `lib.rs`)

`from_configs` stores the API keys of the tenants file as they stand there; `bearer` reads the key
of a request from its header, as visible ASCII and without the white space around it. A tenant
whose key does not come through unchanged cannot authenticate.

`HeaderMap` and `HeaderValue` belong to the `http` crate: `Http` has what the gateway uses of
them, and `Http.Documented` what their documentation says of it.
-/

namespace OxideGate

open Gateway (GatewayError)

/-- `str::as_bytes`. -/
def asBytes (s : String) : List UInt8 := s.toUTF8.data.toList

/-- `char::is_whitespace`: the characters with the Unicode property `White_Space`. -/
def isWhitespace (c : Char) : Bool :=
  (9 ≤ c.toNat && c.toNat ≤ 13) || c.toNat == 32 || c.toNat == 0x85 || c.toNat == 0xA0 ||
    c.toNat == 0x1680 || (0x2000 ≤ c.toNat && c.toNat ≤ 0x200A) || c.toNat == 0x2028 ||
    c.toNat == 0x2029 || c.toNat == 0x202F || c.toNat == 0x205F || c.toNat == 0x3000

/-- `str::trim`. -/
def trim (s : String) : String :=
  String.ofList ((s.toList.dropWhile isWhitespace).rdropWhile isWhitespace)

/-- `str::strip_prefix`. -/
def stripPrefix (s start : String) : Option String :=
  (s.toList.dropPrefix? start.toList).map String.ofList

/-- A byte that `HeaderValue::to_str` accepts. -/
def isVisibleAscii (b : UInt8) : Bool := (32 ≤ b && b < 127) || b == 9

/-- What the gateway uses of the `http` crate, for header maps `H` and header values `V`. -/
structure Http (H V : Type) where
  /-- `headers.get(header::AUTHORIZATION)`. -/
  get : H → Option V
  /-- `headers.get_all(header::AUTHORIZATION)`: the values in the order of the request. -/
  getAll : H → List V
  /-- `HeaderValue::to_str`. -/
  toStr : V → Option String
  /-- `HeaderValue::as_bytes`. -/
  valueBytes : V → List UInt8

/-- What the documentation of the crate says. -/
structure Http.Documented {H V : Type} (http : Http H V) : Prop where
  /-- Of several values `get` returns the first. -/
  get_eq : ∀ h, http.get h = (http.getAll h).head?
  /-- `to_str` yields the value if it has visible ASCII characters only. -/
  toStr_iff : ∀ v s, http.toStr v = some s ↔
    asBytes s = http.valueBytes v ∧ ∀ b ∈ http.valueBytes v, isVisibleAscii b
  /-- Visible ASCII makes a header value, and a request can have it as its first one. -/
  exists_headers : ∀ bytes : List UInt8, (∀ b ∈ bytes, isVisibleAscii b) →
    ∃ h v, (http.getAll h).head? = some v ∧ http.valueBytes v = bytes

namespace Http

variable {H V : Type} (http : Http H V)

/-- `bearer`. -/
def bearer (headers : H) : Option String :=
  (http.get headers).bind fun v =>
    (http.toStr v).bind fun s => (stripPrefix s "Bearer ").map trim

/-- `authenticate`: the tenant that rides along to the handler. -/
def authenticate {R : Type} (tenants : Tenants R) (headers : H) :
    Except GatewayError (Tenant R) :=
  match tenants.resolve (http.bearer headers) with
  | some tenant => .ok tenant
  | none => .error .unauthorized

/-- The first `Authorization` header of the request is `Bearer ` followed by `key`. -/
def Presents (headers : H) (key : String) : Prop :=
  ∃ v, (http.getAll headers).head? = some v ∧ http.valueBytes v = asBytes ("Bearer " ++ key)

end Http

/-- A key that comes through a header unchanged: visible ASCII, without white space around it. -/
structure Presentable (key : String) : Prop where
  visible : ∀ b ∈ asBytes key, isVisibleAscii b
  first : ∀ c ∈ key.toList.head?, isWhitespace c = false
  last : ∀ c ∈ key.toList.getLast?, isWhitespace c = false

/-! ## Strings -/

theorem asBytes_append (s t : String) : asBytes (s ++ t) = asBytes s ++ asBytes t := by
  simp [asBytes]

theorem stripPrefix_append (start s : String) : stripPrefix (start ++ s) start = some s := by
  have h : (start ++ s).toList.dropPrefix? start.toList = some s.toList := by
    rw [List.dropPrefix?_eq_some_iff]
    exact ⟨start.toList, String.toList_append, beq_self_eq_true _⟩
  rw [stripPrefix, h, Option.map_some, String.ofList_toList]

theorem dropWhile_eq_self_iff_head (p : Char → Bool) (l : List Char) :
    l.dropWhile p = l ↔ ∀ c ∈ l.head?, p c = false := by
  rw [List.dropWhile_eq_self_iff]
  cases l with
  | nil => simp
  | cons c l => simp

theorem rdropWhile_eq_self_iff_last (p : Char → Bool) (l : List Char) :
    l.rdropWhile p = l ↔ ∀ c ∈ l.getLast?, p c = false := by
  rw [List.rdropWhile_eq_self_iff]
  constructor
  · intro h c hc
    obtain ⟨hne, rfl⟩ := List.mem_getLast?_eq_getLast hc
    simpa using h hne
  · intro h hne
    simpa using h (l.getLast hne) (List.getLast_mem_getLast? hne)

/-- Trimming leaves a string as it is exactly if nothing is to be trimmed at either end. -/
theorem trim_eq_self_iff (s : String) : trim s = s ↔
    (∀ c ∈ s.toList.head?, isWhitespace c = false) ∧
      ∀ c ∈ s.toList.getLast?, isWhitespace c = false := by
  rw [← dropWhile_eq_self_iff_head, ← rdropWhile_eq_self_iff_last]
  constructor
  · intro h
    have hlist : (s.toList.dropWhile isWhitespace).rdropWhile isWhitespace = s.toList := by
      have htoList := congrArg String.toList h
      rw [trim, String.toList_ofList] at htoList
      exact htoList
    have hsuffix := List.dropWhile_suffix (p := isWhitespace) (l := s.toList)
    have hprefix :=
      List.rdropWhile_prefix (p := isWhitespace) (l := s.toList.dropWhile isWhitespace)
    have hlen := hprefix.length_le
    rw [hlist] at hlen
    have hfirst := hsuffix.eq_of_length_le hlen
    rw [hfirst] at hlist
    exact ⟨hfirst, hlist⟩
  · intro h
    rw [trim, h.1, h.2, String.ofList_toList]

/-! ## The key of a request -/

namespace Http

variable {H V : Type} {http : Http H V}

/-- What `bearer` makes of a header that presents a key. -/
theorem bearer_of_presents (hdoc : http.Documented) {headers : H} {key : String}
    (h : http.Presents headers key) :
    http.bearer headers = if (asBytes key).all isVisibleAscii then some (trim key) else none := by
  obtain ⟨v, hv, hbytes⟩ := h
  have hget : http.get headers = some v := (hdoc.get_eq headers).trans hv
  have hall : (∀ b ∈ http.valueBytes v, isVisibleAscii b) ↔ (asBytes key).all isVisibleAscii := by
    have hstart : ∀ b ∈ asBytes "Bearer ", isVisibleAscii b := by decide +kernel
    rw [hbytes, asBytes_append, List.forall_mem_append, List.all_eq_true]
    exact and_iff_right hstart
  by_cases hvisible : (asBytes key).all isVisibleAscii
  · have hstr : http.toStr v = some ("Bearer " ++ key) :=
      (hdoc.toStr_iff v _).mpr ⟨hbytes.symm, hall.mpr hvisible⟩
    rw [if_pos hvisible, bearer, hget, Option.bind_some, hstr, Option.bind_some,
      stripPrefix_append, Option.map_some]
  · have hstr : http.toStr v = none := by
      cases hs : http.toStr v with
      | none => rfl
      | some s => exact absurd (hall.mp ((hdoc.toStr_iff v s).mp hs).2) hvisible
    rw [if_neg hvisible, bearer, hget, Option.bind_some, hstr, Option.bind_none]

/-- A request that presents a key comes with that key exactly if the key is presentable. -/
theorem bearer_eq_iff (hdoc : http.Documented) {headers : H} {key : String}
    (h : http.Presents headers key) : http.bearer headers = some key ↔ Presentable key := by
  rw [bearer_of_presents hdoc h]
  constructor
  · intro he
    split at he
    · rename_i hvisible
      obtain ⟨hfirst, hlast⟩ := (trim_eq_self_iff key).mp (Option.some.inj he)
      exact ⟨List.all_eq_true.mp hvisible, hfirst, hlast⟩
    · exact absurd he (by simp)
  · intro hkey
    rw [if_pos (List.all_eq_true.mpr hkey.visible),
      (trim_eq_self_iff key).mpr ⟨hkey.first, hkey.last⟩]

/-- A presentable key can be presented. -/
theorem exists_presents (hdoc : http.Documented) {key : String} (h : Presentable key) :
    ∃ headers, http.Presents headers key := by
  have hvisible : ∀ b ∈ asBytes ("Bearer " ++ key), isVisibleAscii b := by
    have hstart : ∀ b ∈ asBytes "Bearer ", isVisibleAscii b := by decide +kernel
    rw [asBytes_append, List.forall_mem_append]
    exact ⟨hstart, h.visible⟩
  obtain ⟨headers, v, hv, hbytes⟩ := hdoc.exists_headers _ hvisible
  exact ⟨headers, v, hv, hbytes⟩

/-! ## Registry and authentication -/

variable {R : Type}

/-- The request comes with the API key of `cfg`, and its tenant is the one built from `cfg`. -/
def Authenticates [Max R] [Div R] [NatCast R] (http : Http H V) (tenants : Tenants R)
    (now : Instant) (headers : H) (cfg : TenantConfig R) : Prop :=
  http.bearer headers = some cfg.apiKey ∧
    http.authenticate tenants headers = .ok (.fromConfig cfg now)

variable [Max R] [Div R] [LT R] [DecidableLT R] [NatCast R]

/-- A request is let in as the tenant that was configured with its key. -/
theorem authenticate_ok_iff {configs : List (TenantConfig R)} {now : Instant}
    {tenants : Tenants R} (h : Tenants.fromConfigs configs now = .ok tenants) (headers : H)
    (t : Tenant R) : http.authenticate tenants headers = .ok t ↔
      ∃ cfg ∈ configs, http.bearer headers = some cfg.apiKey ∧ Tenant.fromConfig cfg now = t := by
  have hanon := (Tenants.fromConfigs_ok h).2.2.1
  unfold authenticate
  cases hkey : http.bearer headers with
  | none =>
    have hnone : tenants.resolve none = none := by
      simp only [Tenants.resolve, hanon, Option.bind_none]
    simp [hnone]
  | some k =>
    have hresolve := Tenants.resolve_fromConfigs h k
    have hmatch : (match tenants.resolve (some k) with
        | some tenant => Except.ok tenant
        | none => Except.error GatewayError.unauthorized) = .ok t ↔
        tenants.resolve (some k) = some t := by
      cases tenants.resolve (some k) <;> simp
    rw [hmatch, hresolve t]
    simp only [Option.some.injEq, eq_comm]

/-- A caller whose key is nobody's is unauthorized. -/
theorem authenticate_error {configs : List (TenantConfig R)} {now : Instant}
    {tenants : Tenants R} (h : Tenants.fromConfigs configs now = .ok tenants) {headers : H}
    (hno : ∀ cfg ∈ configs, http.bearer headers ≠ some cfg.apiKey) :
    http.authenticate tenants headers = .error .unauthorized := by
  cases hauth : http.authenticate tenants headers with
  | ok t =>
    obtain ⟨cfg, hcfg, hkey, -⟩ := (authenticate_ok_iff h headers t).mp hauth
    exact absurd hkey (hno cfg hcfg)
  | error e =>
    unfold authenticate at hauth
    split at hauth
    · exact absurd hauth (by simp)
    · exact hauth.symm

/-- `from_configs` fails exactly if some entry offends, and names the first one that does. When it
succeeds, a request without a configured key is refused, and every entry has requests that present
its key, all of which are let in as its tenant, exactly if every key is presentable. -/
theorem registry_agrees_iff (http : Http H V) (hdoc : http.Documented)
    (configs : List (TenantConfig R)) (now : Instant) :
    ((∃ e, Tenants.fromConfigs configs now = .error e) ↔
      ∃ before cfg after, configs = before ++ cfg :: after ∧ Tenants.Offends before cfg) ∧
    (∀ e, Tenants.fromConfigs configs now = .error e →
      ∃ before cfg after, configs = before ++ cfg :: after ∧ Tenants.Offends before cfg ∧
        e = Tenants.complaint cfg ∧ ∀ b c a, before = b ++ c :: a → ¬ Tenants.Offends b c) ∧
    ∀ tenants, Tenants.fromConfigs configs now = .ok tenants →
      (((∀ cfg ∈ configs, (∃ headers, http.Presents headers cfg.apiKey) ∧
          ∀ headers, http.Presents headers cfg.apiKey →
            http.Authenticates tenants now headers cfg) ∧
        ∀ headers, (∀ cfg ∈ configs, http.bearer headers ≠ some cfg.apiKey) →
          http.authenticate tenants headers = .error .unauthorized) ↔
        ∀ cfg ∈ configs, Presentable cfg.apiKey) := by
  refine ⟨⟨?_, ?_⟩, fun e he => Tenants.fromConfigs_first he, fun tenants hok => ⟨?_, ?_⟩⟩
  · rintro ⟨e, he⟩
    obtain ⟨before, cfg, after, hconfigs, hoffends, -⟩ := Tenants.fromConfigs_first he
    exact ⟨before, cfg, after, hconfigs, hoffends⟩
  · rintro ⟨before, cfg, after, hconfigs, hoffends⟩
    cases h : Tenants.fromConfigs configs now with
    | error e => exact ⟨e, rfl⟩
    | ok tenants =>
      exact absurd hoffends (Tenants.not_offends_of_ok h before cfg after hconfigs)
  · intro ⟨hall, _⟩ cfg hcfg
    obtain ⟨⟨headers, hpresents⟩, hauth⟩ := hall cfg hcfg
    exact (bearer_eq_iff hdoc hpresents).mp (hauth headers hpresents).1
  · intro hkeys
    refine ⟨fun cfg hcfg => ⟨exists_presents hdoc (hkeys cfg hcfg), fun headers hpresents => ?_⟩,
      fun headers hno => authenticate_error hok hno⟩
    have hbearer := (bearer_eq_iff hdoc hpresents).mpr (hkeys cfg hcfg)
    exact ⟨hbearer, (authenticate_ok_iff hok headers _).mpr ⟨cfg, hcfg, hbearer, rfl⟩⟩

/-! ## A crate that does what is documented -/

theorem fromUTF8?_eq_some_iff (bytes : List UInt8) (s : String) :
    String.fromUTF8? ⟨bytes.toArray⟩ = some s ↔ asBytes s = bytes := by
  unfold String.fromUTF8?
  constructor
  · intro h
    split at h
    · rw [← Option.some.inj h]
      rfl
    · exact absurd h (by simp)
  · intro h
    have harray : (⟨bytes.toArray⟩ : ByteArray) = s.toByteArray := by
      rw [← h]
      rfl
    rw [harray, dif_pos s.isValidUTF8]
    rfl

/-- Header values are their bytes, and a request is the list of its `Authorization` headers. -/
def plain : Http (List (List UInt8)) (List UInt8) where
  get := List.head?
  getAll := id
  toStr := fun v => if v.all isVisibleAscii then String.fromUTF8? ⟨v.toArray⟩ else none
  valueBytes := id

theorem plain_documented : plain.Documented where
  get_eq := fun _ => rfl
  toStr_iff := by
    intro v s
    show (if v.all isVisibleAscii then String.fromUTF8? ⟨v.toArray⟩ else none) = some s ↔
      asBytes s = v ∧ ∀ b ∈ v, isVisibleAscii b
    rw [Option.ite_none_right_eq_some, fromUTF8?_eq_some_iff, List.all_eq_true]
    exact and_comm
  exists_headers := fun bytes _ => ⟨[bytes], bytes, rfl, rfl⟩

/-- A tenant whose key is presentable. -/
theorem registry_agrees_iff_key :
    ∃ tenants, Tenants.fromConfigs [(⟨"acme", "key-acme", .paid, 600, 5, 4⟩ : TenantConfig ℚ)] 0
        = .ok tenants ∧
      plain.authenticate tenants [asBytes "Bearer key-acme"]
        = .ok (.fromConfig ⟨"acme", "key-acme", .paid, 600, 5, 4⟩ 0) := by
  obtain ⟨tenants, hok⟩ := (Tenants.fromConfigs_ok_iff
    [(⟨"acme", "key-acme", .paid, 600, 5, 4⟩ : TenantConfig ℚ)] 0).mpr (by decide +kernel)
  have hfirst : "key-acme".toList.head? = some 'k' := rfl
  have hlast : "key-acme".toList.getLast? = some 'e' := rfl
  have hkey : Presentable "key-acme" := by
    refine ⟨by decide +kernel, ?_, ?_⟩
    · rw [hfirst]
      rintro c ⟨⟩
      rfl
    · rw [hlast]
      rintro c ⟨⟩
      rfl
  obtain ⟨-, -, hiff⟩ := registry_agrees_iff plain plain_documented
    [(⟨"acme", "key-acme", .paid, 600, 5, 4⟩ : TenantConfig ℚ)] 0
  have hall := ((hiff tenants hok).mpr (by simpa using hkey)).1
  exact ⟨tenants, hok, ((hall _ List.mem_cons_self).2 _ ⟨_, rfl, rfl⟩).2⟩

/-- Two tenants whose keys differ by a space at the end: the request of the second is let in as
the first. -/
theorem registry_confuses :
    ∃ tenants, Tenants.fromConfigs [(⟨"acme", "k", .paid, 600, 5, 4⟩ : TenantConfig ℚ),
        ⟨"zeta", "k ", .free, 60, 1, 1⟩] 0 = .ok tenants ∧
      plain.Presents [asBytes "Bearer k "] "k " ∧
      plain.authenticate tenants [asBytes "Bearer k "]
        = .ok (.fromConfig ⟨"acme", "k", .paid, 600, 5, 4⟩ 0) := by
  obtain ⟨tenants, hok⟩ := (Tenants.fromConfigs_ok_iff [(⟨"acme", "k", .paid, 600, 5, 4⟩ :
    TenantConfig ℚ), ⟨"zeta", "k ", .free, 60, 1, 1⟩] 0).mpr (by decide +kernel)
  have hpresents : plain.Presents [asBytes "Bearer k "] "k " := ⟨_, rfl, rfl⟩
  have hbearer : plain.bearer [asBytes "Bearer k "] = some "k" := by
    rw [bearer_of_presents plain_documented hpresents]
    decide +kernel
  refine ⟨tenants, hok, hpresents, (authenticate_ok_iff hok _ _).mpr ?_⟩
  exact ⟨_, List.mem_cons_self, hbearer, rfl⟩

end Http
end OxideGate
