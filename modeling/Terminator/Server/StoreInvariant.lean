import Terminator.Server.RecordReplay

/-!
# Signing the stored requests again

When the signer of a link is changed, the storage signs its stored requests again. That gives the
keys they are stored under only while the requests still carry the bodies their clients sent, which
signing them for the first time has taken. **`storeInvariant_iff`**: the invariant holds in every
state of a recording exactly when no recorded request has a body.
-/

namespace Terminator.Server.Link

open Terminator.Java Terminator.Netty Terminator.Storage Terminator.Plugin
open DefaultHttpSigner StorageFactory

variable {type : StorageType} {env : type.Env} {w : World type.State}
  {done : List (HttpRequest ChannelBuffer × HttpResponse ChannelBuffer)}

/-- A stored pair with the body its client sent, so that its request is signed to its key. -/
def Resignable (cs : Charset) (p : JString × RequestResponseBundle ChannelBuffer)
    (q : HttpRequest ChannelBuffer) : Prop :=
  ∃ stored, p.2.request = some (.request stored) ∧ stored.content.content = q.content.content ∧
    signature cs stored = .ok p.1

/-- Every stored pair can be signed again. -/
def StoreInvariant (env : type.Env) (cs : Charset) (w : World type.State)
    (done : List (HttpRequest ChannelBuffer × HttpResponse ChannelBuffer)) : Prop :=
  ∀ i j p e, (stored env w)[i]? = some p → done[j]? = some e →
    From type ((stored env w).map Prod.fst) (done.map fun e => keyOf cs e.1) i j →
    Resignable cs p e.1

/-- It is so in every state reached while the events are recorded. -/
def AlwaysResignable (env : type.Env) (cs : Charset) (w : World type.State)
    (es : List (Nat × Event)) : Prop :=
  ∀ es1 es2, es = es1 ++ es2 → StoreInvariant env cs
    (run (HttpRecordServerHandler (DefaultHttpSigner cs) (getStorage env)) es1 (opened w)).world
    (exchanges idle es1)

/-- What is put for an exchange can be signed again iff the request has no body. -/
theorem resignable_put_iff (cs : Charset) (q : HttpRequest ChannelBuffer)
    (response : Option (HttpObject ChannelBuffer)) :
    Resignable cs (keyOf cs q, ⟨some (.request (q.map ChannelBuffer.drained)), response⟩) q ↔
      q.content.content = [] := by
  constructor
  · rintro ⟨stored, hstored, hbody, -⟩
    rw [← HttpObject.request.inj (Option.some.inj hstored)] at hbody
    rw [← hbody]
    exact ChannelBuffer.content_drained q.content
  · intro hempty
    have hbody : (q.map ChannelBuffer.drained).content.content = q.content.content := by
      rw [hempty]
      exact ChannelBuffer.content_drained q.content
    refine ⟨_, rfl, hbody, ?_⟩
    have htext : signText cs (q.map ChannelBuffer.drained) = signText cs q :=
      signText_congr cs ⟨rfl, rfl, rfl, hbody⟩
    rw [← (signature_eq cs q).1, signature, signature, htext]

theorem keys_puts (cs : Charset)
    (done : List (HttpRequest ChannelBuffer × HttpResponse ChannelBuffer)) :
    (puts cs done).map Prod.fst = done.map fun e => keyOf cs e.1 := by
  simp [puts]

/-- A stored pair of an exchange is what was put for it. -/
theorem resignable_iff_of_from {cs : Charset} (hw : (refines env).Holds w (puts cs done))
    {i j : Nat}
    {p : JString × RequestResponseBundle ChannelBuffer}
    {e : HttpRequest ChannelBuffer × HttpResponse ChannelBuffer}
    (hp : (stored env w)[i]? = some p) (he : done[j]? = some e)
    (hfrom : From type ((stored env w).map Prod.fst) (done.map fun e => keyOf cs e.1) i j) :
    Resignable cs p e.1 ↔ e.1.content.content = [] := by
  have hput : (puts cs done)[j]? = some (keyOf cs e.1,
      ⟨some (.request (e.1.map ChannelBuffer.drained)), some (.response e.2)⟩) := by
    rw [puts, List.getElem?_map, he, Option.map_some]
  rw [← keys_puts] at hfrom
  rw [eq_of_from hw hp hput hfrom]
  exact resignable_put_iff cs e.1 _

/-- An exchange of the beginning is one of the whole. -/
theorem mem_exchanges_append {es es' : List (Nat × Event)}
    {e : HttpRequest ChannelBuffer × HttpResponse ChannelBuffer} :
    ∀ {pending : Pending}, Orderly pending es → e ∈ exchanges pending es →
    e ∈ exchanges pending (es ++ es') := by
  induction es with
  | nil =>
    intro pending _ h
    exact absurd h List.not_mem_nil
  | cons a es ih =>
    intro pending ho h
    obtain ⟨k, a⟩ := a
    rcases a with ⟨q | r | c, b⟩ | ⟨q | r | c, b⟩
    · exact ih ho.2.2 h
    · exact ho.elim
    · exact ho.elim
    · exact ho.elim
    · obtain ⟨q, hq⟩ := Option.ne_none_iff_exists'.mp ho.1
      rw [exchanges, hq] at h
      rw [List.cons_append, exchanges, hq]
      rcases List.mem_cons.mp h with h | h
      · exact List.mem_cons.mpr (.inl h)
      · exact List.mem_cons_of_mem _ (ih ho.2.2.2 h)
    · exact ho.elim

/-- What the storage holds after a recording. -/
theorem holds_recording (cs : Charset) (hfresh : Fresh env w.hidden) {es : List (Nat × Event)}
    (hes : Orderly idle es) :
    (refines env).Holds (run (HttpRecordServerHandler (DefaultHttpSigner cs) (getStorage env)) es
      (opened w)).world (puts cs (exchanges idle es)) :=
  holds_recorded cs (refines env) (holds_of_fresh hfresh w.heap) hes

/-- A recorded request with a body is stored without it. -/
theorem empty_of_storeInvariant (cs : Charset) (hfresh : Fresh env w.hidden)
    {es : List (Nat × Event)} (hes : Orderly idle es) (hinv : AlwaysResignable env cs w es) :
    ∀ e ∈ exchanges idle es, e.1.content.content = [] := by
  intro e he
  obtain ⟨es1, es2, done, hsplit, hdone⟩ := exists_prefix_of_mem hes he
  have hes1 : Orderly idle es1 := Orderly.of_append (hsplit ▸ hes)
  have hheld := holds_recording cs hfresh hes1
  have hinv1 := hinv es1 es2 hsplit
  rw [hdone] at hheld hinv1
  -- Right after the exchange its pair is there.
  have hconcat : puts cs (done ++ [e]) = puts cs done ++ [(keyOf cs e.1,
      ⟨some (.request (e.1.map ChannelBuffer.drained)), some (.response e.2)⟩)] := by
    simp [puts]
  obtain ⟨i, p, hp, hfrom⟩ := exists_from_last (hconcat ▸ hheld)
  rw [← hconcat, keys_puts, puts, List.length_map] at hfrom
  have hlast : (done ++ [e])[done.length]? = some e := List.getElem?_concat_length
  exact (resignable_iff_of_from hheld hp hlast hfrom).mp (hinv1 i done.length p e hp hlast hfrom)

/-- **The store invariant** of a recording: what is stored can be signed again in every state
reached exactly when no recorded request has a body. -/
theorem storeInvariant_iff (cs : Charset) (hfresh : Fresh env w.hidden) {es : List (Nat × Event)}
    (hes : Orderly idle es) :
    AlwaysResignable env cs w es ↔ ∀ e ∈ exchanges idle es, e.1.content.content = [] := by
  refine ⟨empty_of_storeInvariant cs hfresh hes,
    fun hempty es1 es2 hsplit i j p e hp he hfrom => ?_⟩
  have hes1 : Orderly idle es1 := Orderly.of_append (hsplit ▸ hes)
  have hmem : e ∈ exchanges idle es := by
    rw [hsplit]
    exact mem_exchanges_append hes1 (List.mem_of_getElem? he)
  exact (resignable_iff_of_from (holds_recording cs hfresh hes1) hp he hfrom).mpr (hempty e hmem)

theorem get_resignable : AlwaysResignable cacheEnv utf8 CacheStorage.emptyWorld getExchange :=
  have hes : Orderly idle getExchange := ⟨rfl, rfl, by decide, rfl, rfl, trivial⟩
  (@storeInvariant_iff .CACHE cacheEnv CacheStorage.emptyWorld utf8 rfl getExchange hes).mpr
    fun e he => by
      rw [List.mem_singleton.mp he]
      rfl

/-- `POST /a` with a body on a connection, answered by the byte `a`. -/
def postExchange : List (Nat × Event) :=
  [(0, .client (.request (.post "/a" [0x62])) true),
    (0, .remote (.response (.ok (.wrapped [0x61] true))) true)]

/-- The `POST` is stored without its body. -/
theorem post_not_resignable :
    Orderly idle postExchange ∧
      ¬ AlwaysResignable cacheEnv utf8 CacheStorage.emptyWorld postExchange := by
  have hes : Orderly idle postExchange := ⟨rfl, rfl, by decide, rfl, rfl, trivial⟩
  refine ⟨hes, fun hinv => ?_⟩
  have hempty := @empty_of_storeInvariant .CACHE cacheEnv CacheStorage.emptyWorld utf8 rfl
    postExchange hes hinv (.post "/a" [0x62], .ok (.wrapped [0x61] true)) List.mem_cons_self
  exact absurd hempty (by decide)

end Terminator.Server.Link
