import Terminator.Java.Regex
import Terminator.Java.Replace
import Terminator.Plugin.CipherUtil
import Terminator.Plugin.Signer

/-!
# The signer that leaves the password out

`FromAppToDrAPIHttpRequestSigner.java`: the body of a request is unzipped, a login decrypted
before, and the password is erased from it before it is signed. RSA and GZIP are parameters
(`Decoding`).

`erasePassword` finds the password by a regular expression and then replaces its text, wherever
that stands in the body.

* `sign_run`: the key is the digest of `signText`;
* `matches_text`: in a body with one place for a password, the group is that password;
* `erasePassword_text_iff`: the erased body is the body without it iff its text does not stand
  anywhere else;
* **`erasesOnlyThePassword_iff`**: so for two bodies, and for the texts their requests are signed
  by.
-/

namespace Terminator.Plugin

open Terminator.Java Terminator.Netty Terminator.Netty.ChannelBuffer Terminator.Storage

/-- What the signer decodes bodies with: the charset of the virtual machine, the cipher of
`PRIVATE_KEY`, and `GZipUtil.unGzip`, which may throw an `IOException`. -/
structure Decoding where
  charset : Charset
  privateKey : Cipher
  unGzip : List Byte → Option (List Byte)

namespace FromAppToDrAPIHttpRequestSigner

/-- `LOGIN_URL`. -/
def LOGIN_URL : JString := lit "/sem/common/LoginService"

/-- `PATTERN`: `.*password":"(.+?)".*` -/
def PATTERN : Regex JString :=
  .seq (.many true dot) (.seq (.literal (characters (lit "password\":\"")))
    (.seq (.group (.seq (.one dot) (.many false dot)))
      (.seq (.literal (characters (lit "\""))) (.many true dot))))

/-- `erasePassword(content)`. -/
def erasePassword (content : JString) : JString :=
  match Regex.first PATTERN (characters content) with
  | some matcher => replace (matcher.group 1).flatten [] 0 content
  | none => content

/-- `GZipUtil.unGzipString(data)`. -/
def unGzipString (env : Decoding) (data : List Byte) : Option JString :=
  (env.unGzip data).map Utf8.decode

/-- `decryptRequest(content)`: every exception leaves `unGipString` empty. -/
def decryptRequest (env : Decoding) (content : List Byte) : JString :=
  match RSAUtil.decryptByPrivateKey env.privateKey (content.drop 8) with
  | .error _ => []
  | .ok gzipBytes => (unGzipString env gzipBytes).getD []

/-- `unGzipContent` of a body. -/
def unGzipContent (env : Decoding) (uri : JString) (contentBytes : List Byte) : JString :=
  if LOGIN_URL = uri then decryptRequest env contentBytes
  else (unGzipString env contentBytes).getD (env.charset.decode contentBytes)

/-- `sign(req)`. -/
def sign (env : Decoding) (req : Option (HttpObject Ref)) :
    Method (Heap ChannelBuffer) JString := do
  let request ← fromExcept (requestOf req)
  let sb := DefaultHttpSigner.header request
  let content := (← get).get request.content
  if content.readable then
    let contentBytes ← fromExcept content.array
    let contentExceptPassword := erasePassword (unGzipContent env request.uri contentBytes)
    fromExcept (MD5.getMD5ofStr env.charset (sb ++ contentExceptPassword))
  else fromExcept (MD5.getMD5ofStr env.charset sb)

/-- `(HttpRequest) bundle.getRequest()`, which may be null. -/
def castRequest {β : Type} : Option (HttpObject β) → Except Throwable (Option (HttpRequest β))
  | none => .ok none
  | some m => m.asRequest.map some

/-- `logResponse(bundle)`: what it decodes only goes to the log. -/
def logResponse (bundle : RequestResponseBundle Ref) : Method (Heap ChannelBuffer) Unit := do
  let request ← fromExcept (castRequest bundle.request)
  match bundle.response with
  | none => pure ()
  | some m =>
    let response ← fromExcept m.asResponse
    let content := (← get).get response.content
    if content.readable then
      let _ ← fromExcept content.array
      match request with
      | none => throw .nullPointer
      | some _ => pure ()
    else pure ()

/-- The string that is hashed for a request, if its body is in an array. -/
def signText (env : Decoding) (r : HttpRequest ChannelBuffer) : Except Throwable JString :=
  if r.content.readable then
    r.content.array.map fun contentBytes =>
      DefaultHttpSigner.header r ++ erasePassword (unGzipContent env r.uri contentBytes)
  else .ok (DefaultHttpSigner.header r)

/-- **`sign` on a request** hashes that string, and moves no index. -/
theorem sign_run (env : Decoding) (r : HttpRequest Ref) (h : Heap ChannelBuffer) :
    (sign env (some (.request r))).run h =
      (fromExcept (signText env (r.map h.get) >>= MD5.getMD5ofStr env.charset) :
        Method (Heap ChannelBuffer) JString).run h := by
  have hcontent : (r.map h.get).content = h.get r.content := rfl
  simp only [sign, requestOf, HttpObject.asRequest, signText, hcontent]
  rw [run_bind_of_ok (run_fromExcept_ok r h), run_get_bind]
  by_cases hr : (h.get r.content).readable = true
  · rw [if_pos hr, if_pos hr]
    cases harray : (h.get r.content).array with
    | error e => rfl
    | ok contentBytes => rfl
  · rw [if_neg hr, if_neg hr]
    rfl

/-- `sign` only looks. -/
theorem keeps_sign (env : Decoding) (req : Option (HttpObject Ref)) : Keeps id (sign env req) := by
  refine keeps_bind (keeps_fromExcept _ _) fun r => keeps_bind (keeps_get _) fun h => ?_
  refine keeps_ite ?_ (keeps_fromExcept _ _)
  exact keeps_bind (keeps_fromExcept _ _) fun _ => keeps_fromExcept _ _

theorem keeps_logResponse (bundle : RequestResponseBundle Ref) : Keeps id (logResponse bundle) := by
  refine keeps_bind (keeps_fromExcept _ _) fun request => ?_
  cases bundle.response with
  | none => exact keeps_pure _ _
  | some m =>
    refine keeps_bind (keeps_fromExcept _ _) fun response => keeps_bind (keeps_get _) fun h => ?_
    refine keeps_ite (keeps_bind (keeps_fromExcept _ _) fun _ => ?_) (keeps_pure _ _)
    cases request with
    | none => exact keeps_fromExcept id (Except.error Throwable.nullPointer)
    | some _ => exact keeps_pure _ _

end FromAppToDrAPIHttpRequestSigner

/-- `FromAppToDrAPIHttpRequestSigner`. -/
def FromAppToDrAPIHttpRequestSigner (env : Decoding) {σ : Type} : Signer σ where
  sign req := World.onHeap (FromAppToDrAPIHttpRequestSigner.sign env req)
  logResponse bundle := World.onHeap (FromAppToDrAPIHttpRequestSigner.logResponse bundle)
  sign_preserves req :=
    World.preserves_onHeap_of_keeps (FromAppToDrAPIHttpRequestSigner.keeps_sign env req)
  logResponse_preserves bundle :=
    World.preserves_onHeap_of_keeps (FromAppToDrAPIHttpRequestSigner.keeps_logResponse bundle)

namespace FromAppToDrAPIHttpRequestSigner

/-! ## Bodies with a password -/

/-- What stands in front of a password, and what ends it. -/
def KEY : JString := lit "password\":\""

def QUOTE : JChar := 0x22

/-- A body with one place for a password: the text in front of its key, the password, and the text
behind it. -/
structure LoginBody where
  front : JString
  password : JString
  behind : JString
  password_ne_nil : password ≠ []
  no_quote : QUOTE ∉ password
  no_terminator : ∀ u ∈ front ++ (password ++ behind), u ∉ lineTerminators
  /-- The key stands nowhere else. -/
  once : ∀ i ≤ (front ++ (KEY ++ (password ++ QUOTE :: behind))).length,
    KEY <+: (front ++ (KEY ++ (password ++ QUOTE :: behind))).drop i → i = front.length

namespace LoginBody

/-- The body. -/
def text (b : LoginBody) : JString := b.front ++ (KEY ++ (b.password ++ QUOTE :: b.behind))

/-- The body without the password. -/
def erased (b : LoginBody) : JString := b.front ++ (KEY ++ QUOTE :: b.behind)

/-- The text of the password stands neither in front of its place, key and colon included, nor
behind it. -/
def Apart (b : LoginBody) : Prop :=
  ¬ b.password <:+: b.front ++ lit "password\":" ∧ ¬ b.password <:+: b.behind

instance : DecidablePred Apart := fun _ => inferInstanceAs (Decidable (_ ∧ _))

/-- The characters of the body. -/
theorem characters_text (b : LoginBody) : characters b.text =
    characters b.front ++ (characters KEY ++ (characters b.password ++
      ([[QUOTE]] ++ characters b.behind))) := by
  have hKEY : ∀ c ∈ KEY, Utf8.isHighSurrogate c = false := by
    simp [KEY, lit, Utf8.isHighSurrogate]
  have hplain := characters_plain_append hKEY (b.password ++ QUOTE :: b.behind)
  have hpassword : characters (b.password ++ QUOTE :: b.behind) =
      characters b.password ++ ([[QUOTE]] ++ characters b.behind) := by
    rw [characters_append (by decide), characters_cons (by decide)]
    rfl
  rw [hpassword] at hplain
  rw [← hplain]
  exact characters_append (by decide) b.front _

/-- No character of the password is the quote that ends it. -/
theorem not_quote_prefix (b : LoginBody) {x z t : List JString}
    (hxz : x ++ z = characters b.password) (hz : z ≠ []) : ¬ [[QUOTE]] <+: z ++ t := by
  cases z with
  | nil => exact absurd rfl hz
  | cons c z =>
    intro hprefix
    have hc : [QUOTE] = c := (List.cons_prefix_cons.mp hprefix).1
    refine b.no_quote (mem_of_singleton_mem_characters ?_)
    rw [← hxz, hc]
    simp

/-- What stands in front of the key is the front. -/
theorem front_of_key (b : LoginBody) {x y : List JString} (hxy : x ++ y = characters b.text)
    (hkey : characters KEY <+: y) : x = characters b.front := by
  obtain ⟨z, rfl⟩ := hkey
  have htext : b.text = x.flatten ++ (KEY ++ z.flatten) := by
    rw [← flatten_characters b.text, ← hxy]
    simp
  have hplace := b.once x.flatten.length (by rw [← text, htext]; simp)
    (by rw [← text, htext, List.drop_left]; exact List.prefix_append _ _)
  refine front_unique (fun c hc => ?_) (hxy.trans b.characters_text) (by simpa using hplace)
  rw [hxy] at hc
  exact ne_nil_of_mem_characters hc

end LoginBody

/-- **The group** is the password. -/
theorem matches_text (b : LoginBody) :
    ∃ matcher, Regex.first PATTERN (characters b.text) = some matcher ∧
      matcher.group 1 = characters b.password := by
  have hdot (s : JString) (hs : s <:+: b.front ++ (b.password ++ b.behind)) :
      ∀ c ∈ characters s, dot c = true := fun c hc =>
    dot_of_mem_characters (fun u hu => b.no_terminator u (hs.subset hu)) hc
  have hfront := hdot b.front (List.prefix_append _ _).isInfix
  have hpassword := hdot b.password ⟨b.front, b.behind, by simp⟩
  have hbehind := hdot b.behind ⟨b.front ++ b.password, [], by simp⟩
  have hne : characters b.password ≠ [] := by
    intro hnil
    exact b.password_ne_nil (by rw [← flatten_characters b.password, hnil]; rfl)
  have hrest : Regex.first (.many true dot) (characters b.behind) = _ := Regex.first_many hbehind
  have hquote := Regex.first_seq_literal [[QUOTE]] hrest
  -- no quote inside the password, so the group does not end there
  have hgroup := Regex.first_seq_group_reluctant hpassword hne hquote fun x z hxz hz _ =>
    Regex.first_seq_literal_absent (b.not_quote_prefix hxz hz)
  have hkey := Regex.first_seq_literal (characters KEY) hgroup
  -- the key stands at one place, so the first repetition ends there
  have hall : Regex.first PATTERN (characters b.front ++ _) = some _ :=
    Regex.first_seq_many_of_unique hfront hkey fun x y hxy hsome => by
      refine b.front_of_key (hxy.trans b.characters_text.symm) ?_
      by_contra habsent
      refine absurd hsome ?_
      rw [Option.not_isSome_iff_eq_none]
      exact Regex.first_seq_literal_absent habsent
  exact ⟨_, by rw [LoginBody.characters_text]; exact hall, rfl⟩

/-- **What is erased** is the password alone iff its text does not stand elsewhere. -/
theorem erasePassword_text_iff (b : LoginBody) :
    erasePassword b.text = b.erased ↔ b.Apart := by
  obtain ⟨matcher, hmatches, hgroup⟩ := matches_text b
  have hKEY : KEY = lit "password\":" ++ [QUOTE] := by decide
  have htext : b.text = (b.front ++ lit "password\":") ++ QUOTE ::
      (b.password ++ QUOTE :: b.behind) := by simp [LoginBody.text, hKEY]
  have herased : b.erased =
      (b.front ++ lit "password\":") ++ QUOTE :: ([] ++ QUOTE :: b.behind) := by
    simp [LoginBody.erased, hKEY]
  unfold erasePassword LoginBody.Apart
  rw [hmatches]
  dsimp only
  rw [hgroup, flatten_characters, htext, herased,
    replace_append_cons b.password_ne_nil b.no_quote,
    replace_append_cons b.password_ne_nil b.no_quote, replace_self b.password_ne_nil,
    ← replace_eq_self_iff b.password_ne_nil, ← replace_eq_self_iff b.password_ne_nil]
  have hfront := (length_replace_nil b.password_ne_nil (b.front ++ lit "password\":")).1
  have hbehind := (length_replace_nil b.password_ne_nil b.behind).1
  constructor
  · intro h
    -- neither part gets longer, so neither gets shorter
    have hlength := congrArg List.length h
    simp only [List.length_append, List.length_cons] at hlength hfront
    obtain ⟨hA, hS⟩ := List.append_inj h (by rw [List.length_append]; omega)
    exact ⟨hA, by simpa using hS⟩
  · rintro ⟨hA, hS⟩
    rw [hA, hS]

/-! ## Two bodies -/

section Two

variable {env : Decoding} {b b' : LoginBody}

/-- The key of the body with the shorter front stands in the other one too. -/
theorem front_length_eq (h : b.erased = b'.erased) (hle : b.front.length ≤ b'.front.length) :
    b.front.length = b'.front.length := by
  have hKEY : KEY <+: b'.front.drop b.front.length ++ (KEY ++ QUOTE :: b'.behind) := by
    rw [← List.drop_append_of_le_length hle, ← LoginBody.erased, ← h, LoginBody.erased,
      List.drop_left]
    exact List.prefix_append _ _
  -- the key ends before what differs between the body and what is left of it
  have hfront : KEY <+: b'.front.drop b.front.length ++ KEY := by
    refine List.prefix_of_prefix_length_le hKEY ⟨QUOTE :: b'.behind, by simp⟩ ?_
    rw [List.length_append]
    exact Nat.le_add_left _ _
  refine b'.once b.front.length (by rw [List.length_append]; omega) ?_
  rw [List.drop_append_of_le_length hle]
  exact hfront.trans ⟨b'.password ++ QUOTE :: b'.behind, by simp⟩

/-- What is left of a body tells what stood around the password. -/
theorem erased_eq_iff : b.erased = b'.erased ↔ b.front = b'.front ∧ b.behind = b'.behind := by
  constructor
  · intro h
    have hlength : b.front.length = b'.front.length := by
      rcases Nat.le_total b.front.length b'.front.length with hle | hle
      · exact front_length_eq h hle
      · exact (front_length_eq h.symm hle).symm
    obtain ⟨hfront, hrest⟩ := List.append_inj h hlength
    exact ⟨hfront, (List.cons.inj (List.append_cancel_left hrest)).2⟩
  · rintro ⟨hfront, hbehind⟩
    rw [LoginBody.erased, LoginBody.erased, hfront, hbehind]

/-- A request to the login URL whose body is decrypted to this one. -/
structure LoginRequest (env : Decoding) (r : HttpRequest ChannelBuffer) (b : LoginBody) : Prop where
  uri : r.uri = LOGIN_URL
  readable : r.content.readable = true
  hasArray : r.content.hasArray = true
  body : decryptRequest env r.content.bytes = b.text

theorem LoginRequest.signText_eq {r : HttpRequest ChannelBuffer} (h : LoginRequest env r b) :
    signText env r = .ok (DefaultHttpSigner.header r ++ erasePassword b.text) := by
  rw [signText, if_pos h.readable, array, if_pos h.hasArray, Except.map, unGzipContent,
    if_pos h.uri.symm, h.body]

/-- **Erasing removes the password and nothing else**, in two bodies: what is left of each is the
body without its password, and requests that agree up to the body are signed by the same text iff
their bodies agree around the password. -/
structure ErasesOnlyThePassword (env : Decoding) (b b' : LoginBody) : Prop where
  erased : erasePassword b.text = b.erased
  erased' : erasePassword b'.text = b'.erased
  signText_eq_iff : ∀ r r' : HttpRequest ChannelBuffer, LoginRequest env r b →
    LoginRequest env r' b' → DefaultHttpSigner.header r = DefaultHttpSigner.header r' →
      (signText env r = signText env r' ↔ b.front = b'.front ∧ b.behind = b'.behind)

/-- **The exact condition**: the text of neither password stands elsewhere in its body. -/
theorem erasesOnlyThePassword_iff (env : Decoding) (b b' : LoginBody) :
    ErasesOnlyThePassword env b b' ↔ b.Apart ∧ b'.Apart := by
  rw [← erasePassword_text_iff, ← erasePassword_text_iff]
  constructor
  · exact fun h => ⟨h.erased, h.erased'⟩
  · rintro ⟨h, h'⟩
    refine ⟨h, h', fun r r' hr hr' hheader => ?_⟩
    rw [hr.signText_eq, hr'.signText_eq, h, h', hheader, Except.ok.injEq,
      List.append_cancel_left_eq, erased_eq_iff]

end Two

/-- `{"password":"word"}`: the key of the password contains it. -/
def passwordWord : LoginBody where
  front := lit "\x7b\""
  password := lit "word"
  behind := lit "\x7d"
  password_ne_nil := by decide
  no_quote := by decide
  no_terminator := by simp [lit, lineTerminators]
  once := by decide

/-- Bodies that are padded and not zipped. -/
def plain : Decoding := ⟨utf8, RSAUtil.padding.decrypt, some⟩

/-- What is left is `{"pass":""}`. -/
theorem not_erasesOnlyThePassword_passwordWord :
    ¬ ErasesOnlyThePassword plain passwordWord passwordWord := by
  intro h
  exact absurd ((erasePassword_text_iff passwordWord).mp h.erased) (by decide)

end FromAppToDrAPIHttpRequestSigner

end Terminator.Plugin
