/-
The layer of a page (web/mod.rs, pages/mod.rs): what the two surfaces fill in
for a request that does not name one, and what the update writes.

Both fall back to `semantic`, whether or not the page exists, and the update
writes what it is given. The editor carries the page's own layer in a hidden
field, so that a save keeps the layer that the editor was opened in.
-/
import Wikikiki.Router

namespace Wikikiki

/-- The layer of the page's row. -/
def Db.layerOf (db : Db) (path : Text) : Option Text := (db.findPage path).map fun p => p.2.layer

/-- Requests that name no layer: a PUT without a readable `X-Layer`, and a
form without the field. -/
inductive NamesNoLayer (site : Site) : WriteRequest → Prop
  | put {req path auth a wreq} (hs : apiPutPageStart req path auth = .ok (a, wreq))
      (hx : req.header "x-layer".toList = none) : NamesNoLayer site wreq
  | form {req path auth a wreq input} (hs : site.savePageStart req path auth = .ok (a, wreq))
      (hin : site.decoders.save req.body = .ok input) (hx : input.layer = none) : NamesNoLayer site wreq

/-- A save of the form that the editor rendered for the page as it was in
`db`: the writer typed a text and a summary, and the hidden fields are as they
were. -/
inductive SavesForm (site : Site) (db : Db) : WriteRequest → Prop
  | save {req path auth a wreq content conflict typed summary}
      (hs : site.savePageStart req path auth = .ok (a, wreq))
      (hin : site.decoders.save req.body =
        .ok ((editPage path content (db.readMeta path) conflict).submit typed summary)) :
      SavesForm site db wreq

section

variable {site : Site} {w : Wiki} {req wreq : WriteRequest} {db : Db} {i : Input} {stage : Stage}
  {s s' : Stores} {info : PageMeta}

theorem savePageStart_eq_ok {site : Site} {r : Request} {path : Text} {auth : Option Auth} {a : Auth}
    {input : SaveInput} (h : site.savePageStart r path auth = .ok (a, wreq)) (hin : site.decoders.save r.body = .ok input) :
    wreq = saveRequest path a.actor input := by
  simp only [Site.savePageStart, bind_eq_ok] at h
  obtain ⟨b, -, bytes, hbytes, input', hinput, h⟩ := h
  unfold readBody at hbytes
  split at hbytes
  · cases hbytes
  cases hbytes
  rw [hin] at hinput
  cases hinput
  cases h
  rfl

theorem apiPutPageStart_layer {r : Request} {path : Text} {auth : Option Auth} {a : Auth}
    (h : apiPutPageStart r path auth = .ok (a, wreq)) :
    wreq.layer = (r.header "x-layer".toList).getD "semantic".toList := by
  simp only [apiPutPageStart, bind_eq_ok] at h
  obtain ⟨b, -, bytes, -, content, -, pre, -, h⟩ := h
  cases h
  rfl

theorem NamesNoLayer.layer (h : NamesNoLayer site wreq) : wreq.layer = "semantic".toList := by
  cases h with
  | put hs hx => rw [apiPutPageStart_layer hs, hx]; rfl
  | form hs hin hx => rw [savePageStart_eq_ok hs hin, saveRequest, hx]; rfl

/-- The field holds the layer of the page, or that of a new one. -/
theorem editPage_layer (db : Db) (path content : Text) (conflict : Option Text) :
    (editPage path content (db.readMeta path) conflict).layer = (db.layerOf path).getD "semantic".toList := by
  simp only [editPage, Db.readMeta, Db.layerOf]
  cases db.findPage path <;> rfl

theorem SavesForm.layer (h : SavesForm site db wreq) :
    wreq.layer = (db.layerOf wreq.path).getD "semantic".toList := by
  cases h with
  | @save _ path _ _ _ content conflict _ _ hs hin =>
    rw [savePageStart_eq_ok hs hin]
    exact editPage_layer db path content conflict

/-- A write that succeeds leaves its page in the layer of the request. -/
theorem layerOf_done (h : w.exec req i stage s = (.stop (.done info), s')) :
    s'.db.layerOf req.path = some req.layer := by
  cases Wiki.exec_effect h with
  | project hp =>
    obtain ⟨at₀, now, hfind⟩ := hp.findPage_self
    rw [Db.layerOf, hfind]
    rfl

end

/-- **When an update keeps the layer.** A successful write over an existing
page, whatever the stores are when it succeeds, leaves the page in its layer:
for a request that names none, exactly when that layer is `semantic`; for a
save of the form, exactly when it is the layer that the editor was opened in,
or `semantic` where it was opened without a page. -/
theorem layer_kept_iff (site : Site) {wreq : WriteRequest} {i : Input} {stage : Stage} {s s' : Stores}
    {info : PageMeta} {layer : Text} (hdone : site.wiki.exec wreq i stage s = (.stop (.done info), s'))
    (hpage : s.db.layerOf wreq.path = some layer) :
    (NamesNoLayer site wreq →
      (s'.db.layerOf wreq.path = s.db.layerOf wreq.path ↔ layer = "semantic".toList)) ∧
    ∀ opened, SavesForm site opened wreq →
      (s'.db.layerOf wreq.path = s.db.layerOf wreq.path ↔
        (opened.layerOf wreq.path).getD "semantic".toList = layer) := by
  rw [layerOf_done hdone, hpage, Option.some.injEq]
  refine ⟨fun h => ?_, fun opened h => ?_⟩
  · rw [h.layer, eq_comm]
  · rw [h.layer]

/-! ## A page of another layer -/

/-- Two layers, and the page `notes` in one of them. -/
def Stores.layered (layer : Text) : Stores :=
  { Stores.small none with
    db := { Db.small (some { PageRow.foreign "notes".toList none with layer }) with
      layers := [{ code := "semantic".toList, isActive := 1 }, { code := "episodic".toList, isActive := 1 }] } }

/-- The text `one`, for the page `notes`, and nothing said of a layer. -/
def Request.put : Request where
  method := .put
  path := "/api/pages/notes".toList
  query := none
  headers := []
  body := Text.utf8 "one".toList
  remoteAddr := none

def Auth.small : Auth where
  actor := ⟨1, "human".toList, "Alice".toList, "alice".toList, false, true⟩
  surface := .api

/-- What it asks for. -/
def WriteRequest.put : WriteRequest := .small "notes".toList "one".toList .none

theorem put_start : apiPutPageStart .put "notes".toList (some .small) = .ok (.small, .put) := by
  have hbody : textBody (Text.utf8 "one".toList) = .ok "one".toList := by
    simp only [textBody, Text.fromUtf8_utf8]
  have hread : readBody (Request.put).body bodyLimit = .ok (Text.utf8 "one".toList) := by decide
  simp only [apiPutPageStart, requireWriter, hread, bind_eq_ok]
  exact ⟨_, rfl, _, rfl, _, hbody, _, rfl, rfl⟩

theorem layer_kept_semantic : ∃ info s',
    Site.small.wiki.exec .put ⟨1, []⟩ (.project "c".toList) (.layered "semantic".toList) =
      (.stop (.done info), s') ∧
    s'.db.layerOf "notes".toList = (Stores.layered "semantic".toList).db.layerOf "notes".toList := by
  obtain ⟨info, s', hdone⟩ : ∃ info s', Site.small.wiki.exec .put ⟨1, []⟩ (.project "c".toList)
      (.layered "semantic".toList) = (.stop (.done info), s') := ⟨_, _, rfl⟩
  refine ⟨info, s', hdone, ?_⟩
  have hpage : (Stores.layered "semantic".toList).db.layerOf (WriteRequest.put).path = some "semantic".toList := by
    decide
  exact ((layer_kept_iff Site.small hdone hpage).1 (.put put_start rfl)).2 rfl

/-- A PUT without the header takes a page out of its layer. -/
theorem put_moves_page : ∃ info s',
    apiPutPageStart .put "notes".toList (some .small) = .ok (.small, .put) ∧
    (Request.put).header "x-layer".toList = none ∧
    Site.small.wiki.write .put (fun _ => ⟨1, []⟩) (.layered "episodic".toList) = (.stop (.done info), s') ∧
    (Stores.layered "episodic".toList).db.layerOf "notes".toList = some "episodic".toList ∧
    s'.db.layerOf "notes".toList = some "semantic".toList :=
  ⟨_, _, put_start, rfl, rfl, by decide, rfl⟩

end Wikikiki
