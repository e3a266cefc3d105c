import Democrachat.Federation.Grants
import Democrachat.App.Vault
import Democrachat.Domain.NormalForms
import Democrachat.Web.Handlers

/-!
# Session cookies

A browser sends back the pair at the front of the `Set-Cookie` header, and the server reads its
session there.
-/

namespace Democrachat

open Library Federation

/-! ## Texts -/

theorem splitOnce_append {c : Char} {front : List Char} (h : c ∉ front) (back : List Char) :
    splitOnce c (front ++ c :: back) = some (front, back) := by
  have hkept : ∀ a ∈ front, (a != c) = true := by
    intro a ha
    exact bne_iff_ne.2 fun heq => h (heq ▸ ha)
  rw [splitOnce, if_pos (List.mem_append_right _ List.mem_cons_self),
    List.takeWhile_append_of_pos hkept, List.dropWhile_append_of_pos hkept]
  simp

/-- No separator of tokens and cookies, and no white space. -/
def IsPlain (c : Char) : Prop := c ≠ '.' ∧ c ≠ ';' ∧ c ≠ '=' ∧ isWhitespace c = false

instance (c : Char) : Decidable (IsPlain c) := inferInstanceAs (Decidable (_ ∧ _))

theorem isPlain_of_isDigit {c : Char} (h : c.isDigit = true) : IsPlain c := by
  have hdigits : ∀ n ≤ 57, 48 ≤ n → IsPlain (Char.ofNat n) := by decide
  simp only [Char.isDigit, ge_iff_le, Bool.and_eq_true, decide_eq_true_eq] at h
  have hchar := hdigits c.toNat h.2 h.1
  rwa [Char.ofNat_toNat] at hchar

theorem isPlain_repr (n : Nat) : ∀ c ∈ (toString n).toList, IsPlain c := by
  intro c hc
  have hlist : (toString n).toList = Nat.toDigits 10 n := Nat.toList_repr
  rw [hlist] at hc
  exact isPlain_of_isDigit (Nat.isDigit_of_mem_toDigits (by omega) (by omega) hc)

theorem toString_int_cases (i : Int) :
    (∃ n : Nat, i = n ∧ toString i = toString n) ∨
      ∃ n : Nat, i = -(n : Int) ∧ toString i = "-" ++ toString n := by
  cases i with
  | ofNat n => exact .inl ⟨n, rfl, rfl⟩
  | negSucc n => exact .inr ⟨n + 1, by omega, rfl⟩

theorem isPlain_int (i : Int) : ∀ c ∈ (toString i).toList, IsPlain c := by
  obtain ⟨n, -, hi⟩ | ⟨n, -, hi⟩ := toString_int_cases i
  · rw [hi]
    exact isPlain_repr n
  · rw [hi, String.toList_append]
    intro c hc
    rcases List.mem_append.1 hc with hsign | hdigits
    · rw [List.mem_singleton.1 hsign]
      decide
    · exact isPlain_repr n c hdigits

theorem isPlain_toHex (bytes : List UInt8) : ∀ c ∈ (toHex bytes).toList, IsPlain c := by
  have hdigits : ∀ k < 16, IsPlain (hexChar k) := by decide
  intro c hc
  rw [toHex, String.toList_ofList, List.mem_flatMap] at hc
  obtain ⟨b, -, hb⟩ := hc
  have hb' := b.toNat_lt
  rcases List.mem_cons.1 hb with rfl | hlow
  · exact hdigits (b.toNat / 16) (by omega)
  · rw [List.mem_singleton.1 hlow]
    exact hdigits (b.toNat % 16) (by omega)

theorem parseI64_toString {i : Int} (h : -2 ^ 63 ≤ i ∧ i < 2 ^ 63) :
    parseI64 (toString i) = some i := by
  have hdigit : ∀ n : Nat, ∀ c ∈ Nat.toDigits 10 n, c.isDigit = true := fun n c hc =>
    Nat.isDigit_of_mem_toDigits (by omega) (by omega) hc
  have hlist : ∀ n : Nat, (toString n).toList = Nat.toDigits 10 n := fun n => Nat.toList_repr
  have hvalue : ∀ n : Nat,
      (Nat.toDigits 10 n).foldl (fun n c => 10 * n + (c.toNat - '0'.toNat)) 0 = n :=
    fun n => Nat.ofDigitChars_ten_toDigits
  obtain ⟨n, rfl, hi⟩ | ⟨n, rfl, hi⟩ := toString_int_cases i
  · rw [hi, parseI64, hlist]
    split
    next negative digits hsplit =>
      have hsame : (negative, digits) = (false, Nat.toDigits 10 n) := by
        rw [← hsplit]
        split
        next cs hsign => exact absurd (hdigit n '-' (hsign ▸ List.mem_cons_self)) (by decide)
        next cs hsign => exact absurd (hdigit n '+' (hsign ▸ List.mem_cons_self)) (by decide)
        next => rfl
      obtain ⟨rfl, rfl⟩ := Prod.mk.inj hsame
      rw [if_pos ⟨Nat.toDigits_ne_nil, List.all_eq_true.2 (hdigit n)⟩, hvalue]
      exact if_pos h
  · rw [hi, parseI64, String.toList_append, hlist]
    show (if Nat.toDigits 10 n ≠ [] ∧ (Nat.toDigits 10 n).all (·.isDigit) = true then
      let m : Nat := (Nat.toDigits 10 n).foldl (fun n c => 10 * n + (c.toNat - '0'.toNat)) 0
      if -2 ^ 63 ≤ -(m : Int) ∧ -(m : Int) < 2 ^ 63 then some (-(m : Int)) else none
    else none) = some (-(n : Int))
    rw [if_pos ⟨Nat.toDigits_ne_nil, List.all_eq_true.2 (hdigit n)⟩, hvalue]
    exact if_pos h

theorem idOfU64_display (id : UserId) (h : id.sequence < 2 ^ 48) :
    (idOfU64 (id.node.val * 2 ^ 48 + id.sequence) : UserId) = id := by
  have hnode := id.node.isLt
  ext
  · show (id.node.val * 2 ^ 48 + id.sequence) / 2 ^ 48 % 2 ^ 16 = id.node.val
    omega
  · show (id.node.val * 2 ^ 48 + id.sequence) % 2 ^ 48 = id.sequence
    omega

/-! ## Tokens -/

namespace SessionSigner

variable (signer : SessionSigner) (session : UserSession)

theorem isPlain_sign : ∀ c ∈ (signer.sign session).toList, c = '.' ∨ IsPlain c := by
  intro c hc
  simp only [sign, String.toList_append, List.mem_append] at hc
  rcases hc with (((huid | hdot) | hexpires) | hdot) | hmac
  · exact .inr (isPlain_repr _ c huid)
  · exact .inl (List.mem_singleton.1 hdot)
  · exact .inr (isPlain_int _ c hexpires)
  · exact .inl (List.mem_singleton.1 hdot)
  · exact .inr (isPlain_toHex _ c hmac)

theorem verify_token {uid : Nat} {expiresAt : Int} (huid : uid < 2 ^ 64)
    (hexpires : -2 ^ 63 ≤ expiresAt ∧ expiresAt < 2 ^ 63) :
    signer.verify (toString uid ++ "." ++ toString expiresAt ++ "." ++
      toHex (signer.mac uid expiresAt)) = some ⟨idOfU64 uid, expiresAt⟩ := by
  have hdot : ∀ {s : String}, (∀ c ∈ s.toList, IsPlain c) → '.' ∉ s.toList :=
    fun hplain hmem => (hplain '.' hmem).1 rfl
  have hlist : (toString uid ++ "." ++ toString expiresAt ++ "." ++
        toHex (signer.mac uid expiresAt)).toList =
      (toString uid).toList ++ '.' :: ((toString expiresAt).toList ++ '.' ::
        (toHex (signer.mac uid expiresAt)).toList) := by
    simp [String.toList_append]
  rw [verify, hlist]
  simp only [bind, splitOnce_append (hdot (isPlain_repr _)), splitOnce_append (hdot (isPlain_int _)),
    Option.bind_some, String.ofList_toList, EtcdRegistry.parseU64_toString huid,
    parseI64_toString hexpires, hexBytes_toHex, if_true]

/-- The server reads what it has signed. -/
theorem verify_sign {session : UserSession} (hid : session.uid.sequence < 2 ^ 48)
    (hexpires : -2 ^ 63 ≤ session.expiresAt ∧ session.expiresAt < 2 ^ 63) :
    signer.verify (signer.sign session) = some session := by
  have hnode := session.uid.node.isLt
  have huid : session.uid.node.val * 2 ^ 48 + session.uid.sequence < 2 ^ 64 := by omega
  have htoken := signer.verify_token huid hexpires
  rw [idOfU64_display session.uid hid] at htoken
  exact htoken

end SessionSigner

/-! ## What a browser keeps -/

/-- The names and values that the node and its page use. -/
structure Cookie where
  name : String
  value : String
  name_plain : ∀ c ∈ name.toList, c ≠ '=' ∧ c ≠ ';' ∧ isWhitespace c = false
  value_plain : ∀ c ∈ value.toList, c ≠ ';' ∧ isWhitespace c = false

def Cookie.pair (cookie : Cookie) : List Char := cookie.name.toList ++ '=' :: cookie.value.toList

/-- The pair at the front of a `Set-Cookie` header. -/
def Cookie.ofSetCookie? (header : String) : Option Cookie :=
  (splitOnce '=' (header.toList.takeWhile (· != ';'))).bind fun (name, value) =>
    if h : (name.all fun c => c != '=' && (c != ';' && !isWhitespace c)) = true ∧
        (value.all fun c => c != ';' && !isWhitespace c) = true then
      some ⟨String.ofList name, String.ofList value, by simpa using h.1, by simpa using h.2⟩
    else none

abbrev Jar := List Cookie

namespace Jar

variable (jar : Jar)

def value (name : String) : Option String := (jar.find? (·.name == name)).map (·.value)

/-- A cookie takes the place of the one of its name. -/
def put (cookie : Cookie) : Jar := cookie :: jar.filter (·.name != cookie.name)

def keep (setCookie : String) : Jar :=
  match Cookie.ofSetCookie? setCookie with
  | some cookie => jar.put cookie
  | none => jar

def headerChars : Jar → List Char
  | [] => []
  | [cookie] => cookie.pair
  | cookie :: jar => cookie.pair ++ ';' :: ' ' :: headerChars jar

/-- The `Cookie` header. -/
def header : String := String.ofList (headerChars jar)

/-- `csrfToken` of the page: the token that is kept, or a new one of sixteen bytes. -/
def csrfToken (bytes : BytesOf 16) : String × Jar :=
  match (jar.value "dc_csrf").filter (· ≠ "") with
  | some token => (token, jar)
  | none =>
    let token := toHex bytes.1
    (token, jar.keep ("dc_csrf=" ++ token ++ "; Path=/; SameSite=Lax"))

/-- `api` of the page. -/
def fetch (bytes : BytesOf 16) (route : WebApp.Route) (draws : WebApp.Draws) : WebApp.Request :=
  let (token, jar) := jar.csrfToken bytes
  { route, cookies := some (header jar), csrfHeader := if route.isMutation then some token else none,
    draws }

/-! ## The server reads it again -/

theorem value_cons (cookie : Cookie) (name : String) :
    value (cookie :: jar) name = if cookie.name = name then some cookie.value else value jar name := by
  unfold value
  by_cases hname : cookie.name = name
  · rw [if_pos hname, List.find?_cons, beq_iff_eq.2 hname]
    rfl
  · rw [if_neg hname, List.find?_cons, beq_eq_false_iff_ne.2 hname]

theorem value_put (cookie : Cookie) (name : String) :
    (jar.put cookie).value name = if cookie.name = name then some cookie.value else jar.value name := by
  rw [put, value_cons]
  split
  next => rfl
  next hname =>
    have hpasses : ∀ c : Cookie,
        decide ((c.name != cookie.name) = true ∧ (c.name == name) = true) = (c.name == name) := by
      intro c
      by_cases hc : c.name = name
      · simp [hc, Ne.symm hname]
      · simp [hc]
    rw [value, List.find?_filter]
    simp only [hpasses]
    rfl

end Jar

theorem trimChars_space_cons (cs : List Char) : trimChars (' ' :: cs) = trimChars cs := rfl

/-- One pair of the header, with the blank that may stand before it. -/
theorem splitOnce_pair (cookie : Cookie) {lead : List Char} (hlead : lead = [] ∨ lead = [' ']) :
    splitOnce '=' (lead ++ cookie.pair) = some (lead ++ cookie.name.toList, cookie.value.toList) ∧
      trimChars (lead ++ cookie.name.toList) = cookie.name.toList ∧
      trimChars cookie.value.toList = cookie.value.toList := by
  have hname : trimChars cookie.name.toList = cookie.name.toList :=
    trimChars_of_forall fun c hc => (cookie.name_plain c hc).2.2
  have hvalue : trimChars cookie.value.toList = cookie.value.toList :=
    trimChars_of_forall fun c hc => (cookie.value_plain c hc).2
  have hequals : '=' ∉ cookie.name.toList := fun hmem => (cookie.name_plain '=' hmem).1 rfl
  refine ⟨?_, ?_, hvalue⟩
  · rw [Cookie.pair, ← List.append_assoc]
    apply splitOnce_append
    rcases hlead with rfl | rfl
    · exact hequals
    · rw [List.singleton_append, List.mem_cons]
      rintro (heq | hmem)
      · exact absurd heq (by decide)
      · exact hequals hmem
  · rcases hlead with rfl | rfl
    · exact hname
    · exact (trimChars_space_cons _).trans hname

theorem semicolon_notMem_pair (cookie : Cookie) {lead : List Char}
    (hlead : lead = [] ∨ lead = [' ']) : ∀ c ∈ lead ++ cookie.pair, (c == ';') = false := by
  intro c hc
  rw [beq_eq_false_iff_ne]
  rintro rfl
  simp only [Cookie.pair, List.mem_append, List.mem_cons] at hc
  rcases hc with hblank | hname | heq | hvalue
  · rcases hlead with rfl | rfl
    · cases hblank
    · exact absurd (List.mem_singleton.1 hblank) (by decide)
  · exact (cookie.name_plain _ hname).2.1 rfl
  · exact absurd heq (by decide)
  · exact (cookie.value_plain _ hvalue).1 rfl

/-- What one piece of the header says of the name. -/
def pairValue (name : String) (kv : List Char) : Option String :=
  match splitOnce '=' kv with
  | some (k, v) => if trimChars k = name.toList then some (String.ofList (trimChars v)) else none
  | none => none

theorem pairValue_pair (cookie : Cookie) {lead : List Char} (hlead : lead = [] ∨ lead = [' '])
    (name : String) :
    pairValue name (lead ++ cookie.pair) =
      if cookie.name = name then some cookie.value else none := by
  obtain ⟨hsplit, hname, hvalue⟩ := splitOnce_pair cookie hlead
  rw [pairValue, hsplit]
  dsimp only
  rw [hname, hvalue, String.ofList_toList]
  simp only [String.toList_inj]

theorem findSome?_headerChars (jar : Jar) {lead : List Char} (hlead : lead = [] ∨ lead = [' '])
    (name : String) :
    ((lead ++ jar.headerChars).splitOn ';').findSome? (pairValue name) = jar.value name := by
  induction jar generalizing lead with
  | nil => rcases hlead with rfl | rfl <;> rfl
  | cons cookie jar ih =>
    have hpair := pairValue_pair cookie hlead name
    have hplain := semicolon_notMem_pair cookie hlead
    have hvalue := Jar.value_cons jar cookie name
    cases jar with
    | nil =>
      show ((lead ++ cookie.pair).splitOn ';').findSome? (pairValue name) = _
      rw [List.splitOn_eq_splitOnP, List.splitOnP_eq_singleton hplain, List.findSome?_singleton,
        hpair, hvalue]
      rfl
    | cons next jar =>
      have hrest := ih (.inr rfl : [' '] = [] ∨ [' '] = [' '])
      show ((lead ++ (cookie.pair ++ ';' :: ([' '] ++ Jar.headerChars (next :: jar)))).splitOn
        ';').findSome? (pairValue name) = _
      rw [← List.append_assoc, List.splitOn_eq_splitOnP,
        List.splitOnP_append_cons_of_forall_mem hplain ';' (by decide), ← List.splitOn_eq_splitOnP,
        List.findSome?_cons, hpair, hrest, hvalue]
      by_cases hname : cookie.name = name
      · rw [if_pos hname, if_pos hname]
      · rw [if_neg hname, if_neg hname]

/-- The server finds in the header what the browser keeps. -/
theorem cookieValue_header (jar : Jar) (name : String) :
    cookieValue jar.header name = jar.value name := by
  have hheader := findSome?_headerChars jar (.inl rfl) name
  rw [cookieValue, Jar.header, String.toList_ofList]
  exact hheader

/-! ## Setting a cookie -/

theorem ofSetCookie?_pair (cookie : Cookie) {header : String} {attributes : List Char}
    (h : header.toList = cookie.pair ++ ';' :: attributes) :
    Cookie.ofSetCookie? header = some cookie := by
  have hplain : ∀ c ∈ cookie.pair, (c != ';') = true := by
    intro c hc
    have hne := semicolon_notMem_pair cookie (.inl rfl) c hc
    rw [bne, hne]
    rfl
  have hequals : '=' ∉ cookie.name.toList := fun hmem => (cookie.name_plain '=' hmem).1 rfl
  rw [Cookie.ofSetCookie?, h, List.takeWhile_append_of_pos hplain,
    List.takeWhile_cons_of_neg (by decide), List.append_nil, Cookie.pair, splitOnce_append hequals,
    Option.bind_some]
  dsimp only
  rw [dif_pos ⟨by simpa using cookie.name_plain, by simpa using cookie.value_plain⟩]
  cases cookie
  simp

namespace Jar

variable (jar : Jar)

theorem keep_pair (cookie : Cookie) {setCookie : String} (attributes : List Char)
    (h : setCookie.toList = cookie.pair ++ ';' :: attributes) :
    jar.keep setCookie = jar.put cookie := by
  rw [keep, ofSetCookie?_pair cookie h]

theorem keep_sid (cookie : Cookie) (hname : cookie.name = "sid")
    (attributes maxAge suffix : String) :
    jar.keep ("sid=" ++ cookie.value ++ (";" ++ attributes) ++ maxAge ++ suffix) =
      jar.put cookie := by
  apply jar.keep_pair cookie (attributes.toList ++ maxAge.toList ++ suffix.toList)
  simp [Cookie.pair, hname, String.toList_append]

def csrfPair (bytes : BytesOf 16) : Cookie where
  name := "dc_csrf"
  value := toHex bytes.1
  name_plain := by simp [isWhitespace]
  value_plain c hc := ⟨(isPlain_toHex _ c hc).2.1, (isPlain_toHex _ c hc).2.2.2⟩

theorem keep_csrf (bytes : BytesOf 16) :
    jar.keep ("dc_csrf=" ++ toHex bytes.1 ++ "; Path=/; SameSite=Lax") = jar.put (csrfPair bytes) := by
  apply jar.keep_pair (csrfPair bytes) " Path=/; SameSite=Lax".toList
  simp [Cookie.pair, csrfPair, String.toList_append]

theorem toHex_ne_empty (bytes : BytesOf 16) : toHex bytes.1 ≠ "" := by
  intro hempty
  have hbytes := hexBytes_toHex bytes.1
  rw [hempty] at hbytes
  have hlength := congrArg List.length (Option.some.inj hbytes)
  rw [bytes.2] at hlength
  cases hlength

/-- The page keeps the token that it has, and leaves the session alone. -/
theorem csrfToken_spec (bytes : BytesOf 16) :
    (jar.csrfToken bytes).1 ≠ "" ∧
      (jar.csrfToken bytes).2.value "dc_csrf" = some (jar.csrfToken bytes).1 ∧
      (jar.csrfToken bytes).2.value "sid" = jar.value "sid" := by
  unfold csrfToken
  split
  next token htoken =>
    obtain ⟨hvalue, hne⟩ := Option.filter_eq_some_iff.1 htoken
    exact ⟨by simpa using hne, hvalue, rfl⟩
  next =>
    dsimp only
    rw [keep_csrf, value_put, value_put]
    exact ⟨toHex_ne_empty bytes, rfl, rfl⟩

variable (bytes : BytesOf 16) (route : WebApp.Route) (draws : WebApp.Draws)

theorem passesCsrf_fetch (hmutation : route.isMutation = true) :
    (jar.fetch bytes route draws).passesCsrf = true := by
  obtain ⟨hne, hvalue, -⟩ := jar.csrfToken_spec bytes
  have hcookie : (jar.fetch bytes route draws).cookies.bind (cookieValue · "dc_csrf") =
      some (jar.csrfToken bytes).1 :=
    (cookieValue_header (jar.csrfToken bytes).2 "dc_csrf").trans hvalue
  have hheader : (jar.fetch bytes route draws).csrfHeader = some (jar.csrfToken bytes).1 :=
    if_pos hmutation
  rw [WebApp.Request.passesCsrf, hcookie, hheader]
  simpa using hne

/-- What a request of the page presents is what the browser keeps. -/
theorem presented_fetch (signer : SessionSigner) :
    signer.presented (jar.fetch bytes route draws).cookies =
      (jar.value "sid").bind signer.verify := by
  obtain ⟨-, -, hsid⟩ := jar.csrfToken_spec bytes
  rw [← hsid, ← cookieValue_header]
  rfl

end Jar

namespace WebApp

variable (app : WebApp) (session : UserSession) (jar : Jar)

def sessionPair : Cookie where
  name := "sid"
  value := app.signer.sign session
  name_plain := by simp [isWhitespace]
  value_plain := by
    intro c hc
    rcases app.signer.isPlain_sign session c hc with rfl | hplain
    · decide
    · exact ⟨hplain.2.1, hplain.2.2.2⟩

def clearedPair : Cookie where
  name := "sid"
  value := ""
  name_plain := by simp [isWhitespace]
  value_plain := by simp

theorem keep_sessionCookie :
    jar.keep (app.sessionCookie session) = jar.put (app.sessionPair session) := by
  have hattributes : "; Path=/; HttpOnly; SameSite=Lax; Max-Age=" =
      ";" ++ " Path=/; HttpOnly; SameSite=Lax; Max-Age=" := by decide
  rw [sessionCookie, hattributes]
  exact jar.keep_sid (app.sessionPair session) rfl _ _ _

theorem keep_clearSessionCookie : jar.keep app.clearSessionCookie = jar.put clearedPair := by
  have hattributes : "sid=; Path=/; HttpOnly; SameSite=Lax; Max-Age=0" =
      "sid=" ++ clearedPair.value ++ (";" ++ " Path=/; HttpOnly; SameSite=Lax; Max-Age=") ++ "0" := by
    decide +kernel
  have hkeep := jar.keep_sid clearedPair rfl " Path=/; HttpOnly; SameSite=Lax; Max-Age=" "0"
    app.secureSuffix
  rw [← hattributes] at hkeep
  exact hkeep

theorem sid_of_sessionCookie :
    (jar.keep (app.sessionCookie session)).value "sid" = some (app.signer.sign session) := by
  have hname : (app.sessionPair session).name = "sid" := rfl
  rw [keep_sessionCookie, Jar.value_put, if_pos hname]
  rfl

theorem sid_of_clearSessionCookie : (jar.keep app.clearSessionCookie).value "sid" = some "" := by
  have hname : clearedPair.name = "sid" := rfl
  rw [keep_clearSessionCookie, Jar.value_put, if_pos hname]
  rfl

variable (bytes : BytesOf 16) (route : Route) (draws : Draws)

/-- A browser that keeps the cookie of its session presents the session. -/
theorem presented_fetch_of_session (hid : session.uid.sequence < 2 ^ 48)
    (hexpires : -2 ^ 63 ≤ session.expiresAt ∧ session.expiresAt < 2 ^ 63) :
    app.signer.presented ((jar.keep (app.sessionCookie session)).fetch bytes route draws).cookies =
      some session := by
  rw [Jar.presented_fetch, sid_of_sessionCookie, Option.bind_some, app.signer.verify_sign hid hexpires]

theorem presented_fetch_of_clear :
    app.signer.presented ((jar.keep app.clearSessionCookie).fetch bytes route draws).cookies =
      none := by
  rw [Jar.presented_fetch, sid_of_clearSessionCookie, Option.bind_some]
  rfl

end WebApp

end Democrachat
