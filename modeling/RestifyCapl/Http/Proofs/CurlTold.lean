/-
What libcurl is told is what the caller wrote. A request that passed the
checks of a text call has no NUL in any of its texts and clean headers
(`Writable`), so nothing is cut off where libcurl reads a C text, each
header line reads back as its header, and the handle's options give the
method, the url and the body of the request back.

The rest is the option policy: both TLS checks on, both timeouts between
a millisecond and `LONG_MAX`, and no option set twice.
-/
import RestifyCapl.Http.CurlOptions
import RestifyCapl.Http.Proofs.FrontEnds
import RestifyCapl.Http.Proofs.HeaderBlock

namespace RestifyCapl.Http

open Lib

-- ====================================================== what passes the checks

/-- What a request read from a caller's texts is like. -/
structure Writable (r : HttpRequest) : Prop where
  url : 0 ∉ r.url
  headers : ∀ header ∈ r.headers, CleanHeader header
  lines : ∀ header ∈ r.headers, 0 ∉ headerLine header
  body : r.body.length < 2 ^ 32
  tls : r.options.skipTlsVerification = false

theorem headerLine_eq (header : HttpHeader) :
    headerLine header = renderHeader header := by
  unfold headerLine renderHeader
  rw [List.append_assoc]
  rfl

/-- The headers of a block are clean, with no byte that is not the
block's. -/
theorem parseHeaderBlock_clean {block : Bytes} {headers : List HttpHeader}
    (h : parseHeaderBlock block = .ok headers) :
    ∀ header ∈ headers, CleanHeader header
      ∧ header.name ⊆ block ∧ header.value ⊆ block := by
  rw [parseHeaderBlock_lines, parseHeaderLines_ok] at h
  intro header hmem
  obtain ⟨line, hline, hread⟩ := exists_of_forall₂ h.flip hmem
  obtain ⟨before, after, hparts, rfl⟩ := parseHeaderLine_ok hread
  have hblock : line ⊆ block := by
    unfold blockLines at hline
    split at hline
    · cases hline
    · exact subset_of_mem_splitOn hline
  have hstripped : before ++ ch ':' :: after ⊆ block := by
    rw [← hparts.cut]
    exact fun c hc => hblock (stripTrailingCr_subset line hc)
  refine ⟨hparts.clean (line_of_blockLines hline), ?_, ?_⟩
  · exact fun c hc => hstripped (List.mem_append_left _ (trim_subset hc))
  · exact fun c hc => hstripped (List.mem_append_right _
      (List.mem_cons_of_mem _ (trim_subset hc)))

/-- A request of checked texts is writable. -/
theorem writable_of_texts {method : HttpMethod} {url block body : Bytes}
    {headers : List HttpHeader} {c t m : UInt32} (hurl : 0 ∉ url)
    (hblock : 0 ∉ block) (hheaders : parseHeaderBlock block = .ok headers)
    (hbody : body.length < 2 ^ 32) :
    Writable { method := method, url := url, headers := headers,
               body := body, options := makeRequestOptions c t m } where
  url := hurl
  headers header hmem := (parseHeaderBlock_clean hheaders header hmem).1
  lines header hmem := by
    obtain ⟨-, hname, hvalue⟩ := parseHeaderBlock_clean hheaders header hmem
    unfold headerLine
    rw [List.mem_append, List.mem_append]
    rintro ((hzero | hzero) | hzero)
    · exact hblock (hname hzero)
    · revert hzero
      decide
    · exact hblock (hvalue hzero)
  body := hbody
  tls := rfl

theorem boundedText_short {p : CharBuffer} {text : Bytes}
    (h : boundedText p = .ok text) : text.length < 2 ^ 32 :=
  (boundedText_ok h).2.trans p.size.toNat_lt

theorem generalRequest_writable {methodText urlText headersText
    bodyText : CharBuffer} {c t m : UInt32} {r : HttpRequest}
    (h : generalRequest methodText urlText headersText bodyText
      (makeRequestOptions c t m) = .ok r) :
    Writable r ∧ r.options = makeRequestOptions c t m := by
  unfold generalRequest at h
  obtain ⟨methodView, -, h⟩ := exists_of_bind_ok h
  obtain ⟨url, hurl, h⟩ := exists_of_bind_ok h
  obtain ⟨block, hblock, h⟩ := exists_of_bind_ok h
  obtain ⟨body, hbody, h⟩ := exists_of_bind_ok h
  obtain ⟨method, -, h⟩ := exists_of_bind_ok h
  obtain ⟨headers, hheaders, h⟩ := exists_of_bind_ok h
  obtain rfl := Except.ok.inj h
  exact ⟨writable_of_texts (boundedText_ok hurl).1 (boundedText_ok hblock).1
    hheaders (boundedText_short hbody), rfl⟩

theorem verbRequest_writable {method : HttpMethod}
    {urlText headersText : CharBuffer} {bodyText : Option CharBuffer}
    {r : HttpRequest}
    (h : verbRequest method urlText headersText bodyText = .ok r) :
    Writable r ∧ r.options = makeRequestOptions 0 0 0 := by
  unfold verbRequest at h
  obtain ⟨url, hurl, h⟩ := exists_of_bind_ok h
  obtain ⟨block, hblock, h⟩ := exists_of_bind_ok h
  cases bodyText with
  | none =>
      obtain ⟨body, hbody, h⟩ := exists_of_bind_ok h
      obtain ⟨headers, hheaders, h⟩ := exists_of_bind_ok h
      obtain rfl := Except.ok.inj hbody
      obtain rfl := Except.ok.inj h
      exact ⟨writable_of_texts (boundedText_ok hurl).1
        (boundedText_ok hblock).1 hheaders (by decide), rfl⟩
  | some bodyText =>
      obtain ⟨body, hbody, h⟩ := exists_of_bind_ok h
      obtain ⟨headers, hheaders, h⟩ := exists_of_bind_ok h
      obtain rfl := Except.ok.inj h
      exact ⟨writable_of_texts (boundedText_ok hurl).1
        (boundedText_ok hblock).1 hheaders (boundedText_short hbody), rfl⟩

/-- The options of a call: none but those of the general call. -/
def SyncCall.options : SyncCall → RequestOptions
  | .request _ _ _ _ c t m => makeRequestOptions c t m
  | _ => makeRequestOptions 0 0 0

theorem SyncCall.checked_writable {call : SyncCall} {r : HttpRequest}
    (h : call.checked = .ok r) :
    Writable r ∧ r.options = call.options := by
  cases call with
  | request => exact generalRequest_writable h
  | get | delete | post | put | patch =>
      unfold SyncCall.checked at h
      exact verbRequest_writable h

-- ============================================================ what is told

/-- The method the options come to: a verb of its own, or the one of the
option that chose the kind of transfer. -/
def EasyHandle.method? (handle : EasyHandle) : Option HttpMethod :=
  match handle.value? .customRequest with
  | some (.text verb) => (kMethods.lookup verb)
  | _ =>
      if handle.value? .post = some (.long 1) then some .post
      else if handle.value? .noBody = some (.long 1) then some .head
      else if handle.value? .httpGet = some (.long 1) then some .get
      else none

/-- The body the options come to. -/
def EasyHandle.body (handle : EasyHandle) : Bytes :=
  match handle.value? .postFields, handle.value? .postFieldSizeLarge with
  | some (.memory bytes), some (.off size) => bytes.take size.toInt.toNat
  | _, _ => []

theorem cStr_eq {text : Bytes} (h : 0 ∉ text) : cStr text = text := by
  unfold cStr
  rw [List.takeWhile_eq_self_iff]
  intro c hc
  rw [decide_eq_true_iff]
  exact fun heq => h (heq ▸ hc)

theorem clampToLong_toInt (milliseconds : UInt32) :
    (clampToLong milliseconds).toInt
      = min milliseconds.toNat (2 ^ 31 - 1) := by
  have hlong : ∀ ms : UInt32, ms.toNat < 2 ^ 31 →
      ms.toInt32.toInt = ms.toNat := by
    intro ms hms
    show ms.toBitVec.toInt = ms.toBitVec.toNat
    apply BitVec.toInt_eq_toNat_of_lt
    show 2 * ms.toNat < 2 ^ 32
    omega
  have hmax : kLongMax.toNat = 2 ^ 31 - 1 := rfl
  unfold clampToLong
  by_cases hgt : milliseconds > kLongMax
  · rw [if_pos hgt, hlong _ (by omega), hmax]
    have : kLongMax.toNat < milliseconds.toNat := hgt
    omega
  · rw [if_neg hgt]
    have : ¬ kLongMax.toNat < milliseconds.toNat := hgt
    rw [hlong _ (by omega)]
    omega

-- ============================================================ the settings

/-- An option set once has that value. -/
theorem EasyHandle.value?_of_mem {handle : EasyHandle}
    {option : CURLoption} {value : CurlValue}
    (honce : (handle.map Prod.fst).Nodup) (h : (option, value) ∈ handle) :
    handle.value? option = some value := by
  unfold EasyHandle.value?
  cases hfind : handle.reverse.find? fun setting => setting.1 = option with
  | none =>
      rw [List.find?_eq_none] at hfind
      have hne := hfind _ (List.mem_reverse.mpr h)
      rw [decide_eq_true_iff] at hne
      exact absurd rfl hne
  | some setting =>
      have hmem := List.mem_reverse.mp (List.mem_of_find?_eq_some hfind)
      have hoption := List.find?_some hfind
      rw [decide_eq_true_iff] at hoption
      have := List.inj_on_of_nodup_map honce hmem h hoption
      rw [this]
      rfl

/-- An option that was not set has no value. -/
theorem EasyHandle.value?_none {handle : EasyHandle} {option : CURLoption}
    (h : option ∉ handle.map Prod.fst) : handle.value? option = none := by
  unfold EasyHandle.value?
  rw [Option.map_eq_none_iff, List.find?_eq_none]
  intro setting hmem
  rw [decide_eq_true_iff]
  exact fun heq => h (heq ▸ List.mem_map_of_mem (List.mem_reverse.mp hmem))

/-- No option is set twice. -/
theorem curlSettings_once (r : HttpRequest) :
    ((curlSettings r).map Prod.fst).Nodup := by
  unfold curlSettings methodSettings tlsSettings bodySettings
  cases r.method <;> cases r.options.skipTlsVerification <;> simp

/-- Which options choose the method, for each of them. -/
theorem curlSettings_choice (r : HttpRequest) (option : CURLoption)
    (h : option = .customRequest ∨ option = .post ∨ option = .noBody
      ∨ option = .httpGet ∨ option = .postFields
      ∨ option = .postFieldSizeLarge) :
    (curlSettings r).value? option = (methodSettings r).value? option := by
  by_cases hset : option ∈ (methodSettings r).map Prod.fst
  · obtain ⟨⟨_, value⟩, hmem, rfl⟩ := List.mem_map.mp hset
    have honce : ((methodSettings r).map Prod.fst).Nodup := by
      unfold methodSettings bodySettings
      cases r.method <;> simp
    rw [EasyHandle.value?_of_mem honce hmem]
    apply EasyHandle.value?_of_mem (curlSettings_once r)
    simp [curlSettings, hmem]
  · rw [EasyHandle.value?_none hset]
    apply EasyHandle.value?_none
    unfold curlSettings tlsSettings
    rcases h with rfl | rfl | rfl | rfl | rfl | rfl <;> split <;>
      simpa using hset

/-- The method the options come to is the request's. -/
theorem curlSettings_method (r : HttpRequest) :
    (curlSettings r).method? = some r.method := by
  unfold EasyHandle.method?
  rw [curlSettings_choice r .customRequest (by simp),
    curlSettings_choice r .post (by simp),
    curlSettings_choice r .noBody (by simp),
    curlSettings_choice r .httpGet (by simp)]
  unfold methodSettings bodySettings
  cases r.method <;> rfl

/-- The body the options come to is the request's, where its method may
have one. -/
theorem curlSettings_body {r : HttpRequest} (hlen : r.body.length < 2 ^ 32)
    (hbody : methodForbidsBody r.method = true → r.body = []) :
    (curlSettings r).body = r.body := by
  have hsize : (Int64.ofNat r.body.length).toInt = r.body.length := by
    apply Int64.toInt_ofNat_of_lt
    omega
  unfold EasyHandle.body
  rw [curlSettings_choice r .postFields (by simp),
    curlSettings_choice r .postFieldSizeLarge (by simp)]
  unfold methodSettings bodySettings
  cases hmethod : r.method with
  | get | head | delete =>
      rw [hbody (by rw [hmethod]; rfl)]
      rfl
  | post | put | patch =>
      show (r.body ++ [0]).take (Int64.ofNat r.body.length).toInt.toNat
        = r.body
      rw [hsize, Int.toNat_natCast, List.take_left]

/-- Each header line reads back as its header. -/
theorem curlSettings_lines {r : HttpRequest} (hr : Writable r) :
    List.Forall₂
      (fun line header => parseHeaderLine line = .ok header
        ∧ ch '\n' ∉ line ∧ 0 ∉ line)
      (r.headers.map fun header => cStr (headerLine header)) r.headers := by
  rw [List.forall₂_map_left_iff, List.forall₂_same]
  intro header hmem
  have hclean := hr.headers header hmem
  have hnul := hr.lines header hmem
  rw [cStr_eq hnul, headerLine_eq]
  rw [headerLine_eq] at hnul
  exact ⟨hclean.parse, hclean.render_line, hnul⟩

-- ============================================================== the result

/-- The handle says the request, and whose flag to watch. -/
structure Tells (handle : EasyHandle) (r : HttpRequest)
    (cancelFlag : Option Nat) : Prop where
  once : (handle.map Prod.fst).Nodup
  method : handle.method? = some r.method
  url : handle.value? .url = some (.text r.url)
  headers : ∃ lines, handle.value? .httpHeader = some (.slist lines)
    ∧ List.Forall₂ (fun line header => parseHeaderLine line = .ok header
        ∧ ch '\n' ∉ line ∧ 0 ∉ line) lines r.headers
  body : handle.body = r.body
  cancel : handle.value? .xferInfoData = some (.flag cancelFlag)

/-- The certificate and its host name are both checked, and nothing waits
for ever. -/
structure Bounded (handle : EasyHandle) (options : RequestOptions) :
    Prop where
  peer : handle.value? .sslVerifyPeer = some (.long 1)
  host : handle.value? .sslVerifyHost = some (.long 2)
  connect : ∃ ms, handle.value? .connectTimeoutMs = some (.long ms)
    ∧ ms.toInt = min (connectMs options).toNat (2 ^ 31 - 1) ∧ 0 < ms.toInt
  total : ∃ ms, handle.value? .timeoutMs = some (.long ms)
    ∧ ms.toInt = min (totalMs options).toNat (2 ^ 31 - 1) ∧ 0 < ms.toInt

theorem clampToLong_pos {milliseconds : UInt32} (h : milliseconds ≠ 0) :
    0 < (clampToLong milliseconds).toInt := by
  have hpos : milliseconds.toNat ≠ 0 :=
    fun hzero => h (UInt32.toNat_inj.mp hzero)
  rw [clampToLong_toInt]
  omega

theorem connectMs_ne (options : RequestOptions) : connectMs options ≠ 0 := by
  unfold connectMs
  split
  · decide
  · assumption

theorem totalMs_ne (options : RequestOptions) : totalMs options ≠ 0 := by
  unfold totalMs
  split
  · decide
  · assumption

/-- libcurl is told what the caller wrote. For each call of the text
surface whose request goes out, whether it is sent at once or handed to
the engine, which puts its own flag in, the options of the handle give the
request back, and both TLS checks and both timeouts are on. -/
theorem curl_told_the_call {call : SyncCall} {r : HttpRequest}
    (cancelFlag : Option Nat) (hchecked : call.checked = .ok r)
    (hsend : isSendable r = true) :
    Tells (curlSettings { r with cancelFlag := cancelFlag }) r cancelFlag
      ∧ Bounded (curlSettings { r with cancelFlag := cancelFlag })
        call.options := by
  obtain ⟨hr, hoptions⟩ := SyncCall.checked_writable hchecked
  have hbody : methodForbidsBody r.method = true → r.body = [] := by
    intro hforbids
    unfold isSendable at hsend
    rw [hforbids, Bool.true_and, Bool.and_eq_true] at hsend
    simpa using hsend.2
  have honce := curlSettings_once { r with cancelFlag := cancelFlag }
  constructor
  · exact {
      once := honce
      method := curlSettings_method { r with cancelFlag := cancelFlag }
      url := by
        apply EasyHandle.value?_of_mem honce
        simp [curlSettings, cStr_eq hr.url]
      headers := ⟨_, EasyHandle.value?_of_mem honce (by
          simp [curlSettings]), curlSettings_lines hr⟩
      body := curlSettings_body hr.body hbody
      cancel := by
        apply EasyHandle.value?_of_mem honce
        simp [curlSettings] }
  · have hpeer : (CURLoption.sslVerifyPeer, CurlValue.long 1)
        ∈ curlSettings { r with cancelFlag := cancelFlag } := by
      simp [curlSettings, tlsSettings, hr.tls]
    have hhost : (CURLoption.sslVerifyHost, CurlValue.long 2)
        ∈ curlSettings { r with cancelFlag := cancelFlag } := by
      simp [curlSettings, tlsSettings, hr.tls]
    rw [← hoptions]
    exact {
      peer := EasyHandle.value?_of_mem honce hpeer
      host := EasyHandle.value?_of_mem honce hhost
      connect := ⟨clampToLong (connectMs r.options),
        EasyHandle.value?_of_mem honce (by simp [curlSettings]),
        clampToLong_toInt _, clampToLong_pos (connectMs_ne _)⟩
      total := ⟨clampToLong (totalMs r.options),
        EasyHandle.value?_of_mem honce (by simp [curlSettings]),
        clampToLong_toInt _, clampToLong_pos (totalMs_ne _)⟩ }

/-- A Post with a header and a body, and a connect timeout beyond what a
`long` holds. -/
def postCall : SyncCall :=
  .request (.holding (bytesOf "post")) (.holding (bytesOf "http://h"))
    (.holding (bytesOf "a: b")) (.holding (bytesOf "x")) 4294967295 0 0

theorem curl_told_the_call_post :
    (curlSettings { method := .post, url := bytesOf "http://h",
                    headers := [⟨bytesOf "a", bytesOf "b"⟩],
                    body := bytesOf "x",
                    options := makeRequestOptions 4294967295 0 0 }).body
      = bytesOf "x" :=
  (curl_told_the_call none (rfl : postCall.checked = .ok _)
    (by decide)).1.body

end RestifyCapl.Http
