import AppComponts.CaIdentity
import AppComponts.Library.Text

/-!
# The exported certificate

The install button: its task gets a CA certificate, asks where to save it, and writes it there,
which may be over `ca.crt` or `ca.key`. `std::fs::write` empties a file before it writes, and
either may fail. What a proxy presents in its tunnels is signed with the key of its own call of
`generate_ca_certificate`; so a certificate that was exported is good for it if both calls came to
the same key.
-/

namespace AppComponts
open Text Transition
set_option autoImplicit false

/-- Where the file dialog leads; the other paths are neither of the two files. -/
inductive SavePath where
  | caCrt
  | caKey
  | other (path : Str)
  deriving DecidableEq, Repr

/-- How a write into an emptied file ends; an error behind the last line leaves a text that can
be read. -/
inductive Written where
  | whole
  | tailLost
  | cutShort
  deriving DecidableEq, Repr

inductive Export where
  | generating (call : Nat)
  | choosing (cert : KeyPair)
  | opening (path : SavePath) (cert : KeyPair)
  | writing (path : SavePath) (cert : KeyPair)
  | saved (path : SavePath) (cert : KeyPair)
  | notSaved (path : SavePath)
  | cancelled
  | failed
  deriving DecidableEq, Repr

def Export.isOver : Export → Bool
  | .saved _ _ => true
  | .notSaved _ => true
  | .cancelled => true
  | .failed => true
  | _ => false

def CaCall.writesTo : CaCall → Option (SavePath × KeyPair)
  | .writeCrt pair => some (.caCrt, pair)
  | .writeKey pair => some (.caKey, pair)
  | _ => none

def CaDir.set (dir : CaDir) (path : SavePath) (content : KeyPair) : CaDir :=
  match path with
  | .caCrt => { dir with crt := some content }
  | .caKey => { dir with key := some content }
  | .other _ => dir

/-- The directory with the calls of the proxies and of the button, the clicks on it, and the
numbers of contents that parse neither as a certificate nor as a key. -/
structure ExportWorld where
  ca : CaWorld
  exports : List Export
  spoiled : List KeyPair
  deriving DecidableEq, Repr

inductive ExportAction where
  | ca (act : CaAction)
  | callBroken (i : Nat) (readable : Bool)
  | installCert
  | generated (e : Nat)
  | saveFile (e : Nat) (path : Option SavePath)
  | create (e : Nat) (fails : Bool)
  | writeAll (e : Nat) (written : Written)
  deriving DecidableEq, Repr

namespace ExportWorld

def start (dir : CaDir) : ExportWorld := ⟨.start dir, [], []⟩

def put (w : ExportWorld) (path : SavePath) (content : KeyPair) : ExportWorld :=
  { w with ca := { w.ca with dir := w.ca.dir.set path content } }

def spoil (w : ExportWorld) (path : SavePath) : ExportWorld :=
  { w.put path w.ca.fresh with
    ca := { (w.put path w.ca.fresh).ca with fresh := w.ca.fresh + 1 }
    spoiled := w.spoiled ++ [w.ca.fresh] }

/-- A certificate is written; in the place of the key it is no key. -/
def putCert (w : ExportWorld) (path : SavePath) (cert : KeyPair) : ExportWorld :=
  if path = .caKey then w.spoil path else w.put path cert

def setExport (w : ExportWorld) (e : Nat) (task : Export) : ExportWorld :=
  { w with exports := w.exports.set e task }

def afterGenerate : CaCall → Option Export
  | .returned (.ok cert _) => some (.choosing cert)
  | .returned .err => some .failed
  | .returned .panicked => some .failed
  | _ => none

def next (w : ExportWorld) : ExportAction → Option ExportWorld
  | .ca act =>
    if w.ca.Parses w.spoiled act then (w.ca.next act).map fun ca => { w with ca := ca } else none
  -- a write of the call itself fails when the file is already emptied
  | .callBroken i readable => do
    let call ← w.ca.calls[i]?
    let (path, pair) ← call.writesTo
    let left := if readable then w.put path pair else w.spoil path
    return { left with ca := { left.ca with calls := w.ca.calls.set i (.returned .err) } }
  | .installCert => (w.ca.next .call).map fun ca =>
    { w with ca := ca, exports := w.exports ++ [.generating w.ca.calls.length] }
  | .generated e =>
    match w.exports[e]? with
    | some (.generating i) => do
      let call ← w.ca.calls[i]?
      let went ← afterGenerate call
      return w.setExport e went
    | _ => none
  | .saveFile e path =>
    match w.exports[e]? with
    | some (.choosing cert) =>
      some (w.setExport e (match path with
        | none => .cancelled
        | some path => .opening path cert))
    | _ => none
  | .create e fails =>
    match w.exports[e]? with
    | some (.opening path cert) =>
      if fails then some (w.setExport e (.notSaved path))
      else some ((w.spoil path).setExport e (.writing path cert))
    | _ => none
  | .writeAll e written =>
    match w.exports[e]? with
    | some (.writing path cert) =>
      match written with
      | .whole => some ((w.putCert path cert).setExport e (.saved path cert))
      | .tailLost => some ((w.putCert path cert).setExport e (.notSaved path))
      | .cutShort => some (w.setExport e (.notSaved path))
    | _ => none

def Quiet (w : ExportWorld) : Prop :=
  w.ca.Quiet ∧ ∀ task ∈ w.exports, task.isOver = true

instance (w : ExportWorld) : Decidable w.Quiet := inferInstanceAs (Decidable (_ ∧ _))

inductive Step (w : ExportWorld) : ExportAction → ExportWorld → Prop
  | called {act : CaAction} {ca : CaWorld} (hparses : w.ca.Parses w.spoiled act)
      (h : w.ca.next act = some ca) : Step w (.ca act) { w with ca := ca }
  | broke {i : Nat} {call : CaCall} {path : SavePath} {pair : KeyPair} {readable : Bool}
      {left : ExportWorld} (hcall : w.ca.calls[i]? = some call)
      (hwrites : call.writesTo = some (path, pair))
      (hleft : left = if readable then w.put path pair else w.spoil path) :
      Step w (.callBroken i readable)
        { left with ca := { left.ca with calls := w.ca.calls.set i (.returned .err) } }
  | clicked {ca : CaWorld} (h : w.ca.next .call = some ca) :
      Step w .installCert
        { w with ca := ca, exports := w.exports ++ [.generating w.ca.calls.length] }
  | took {e i : Nat} {call : CaCall} {went : Export}
      (he : w.exports[e]? = some (.generating i)) (hcall : w.ca.calls[i]? = some call)
      (hwent : afterGenerate call = some went) : Step w (.generated e) (w.setExport e went)
  | chose {e : Nat} {path : Option SavePath} {cert : KeyPair} {went : Export}
      (he : w.exports[e]? = some (.choosing cert))
      (hwent : went = .cancelled ∨ ∃ path', went = .opening path' cert) :
      Step w (.saveFile e path) (w.setExport e went)
  | notOpened {e : Nat} {path : SavePath} {cert : KeyPair}
      (he : w.exports[e]? = some (.opening path cert)) :
      Step w (.create e true) (w.setExport e (.notSaved path))
  | opened {e : Nat} {path : SavePath} {cert : KeyPair}
      (he : w.exports[e]? = some (.opening path cert)) :
      Step w (.create e false) ((w.spoil path).setExport e (.writing path cert))
  | wrote {e : Nat} {path : SavePath} {cert : KeyPair} {written : Written} {went : Export}
      (he : w.exports[e]? = some (.writing path cert))
      (hwent : went = .saved path cert ∨ went = .notSaved path) :
      Step w (.writeAll e written) ((w.putCert path cert).setExport e went)
  | cut {e : Nat} {path : SavePath} {cert : KeyPair}
      (he : w.exports[e]? = some (.writing path cert)) :
      Step w (.writeAll e .cutShort) (w.setExport e (.notSaved path))

variable {w w' v : ExportWorld} {act : ExportAction} {path : SavePath} {cert content : KeyPair}

theorem step_of_next (h : w.next act = some w') : Step w act w' := by
  cases act with
  | ca act =>
    obtain ⟨hparses, h⟩ := Option.ite_none_right_eq_some.mp h
    obtain ⟨ca, hca, rfl⟩ := Option.map_eq_some_iff.mp h
    exact .called hparses hca
  | callBroken i readable =>
    obtain ⟨call, hcall, h⟩ := Option.bind_eq_some_iff.mp h
    obtain ⟨⟨path, pair⟩, hwrites, h⟩ := Option.bind_eq_some_iff.mp h
    cases h
    exact .broke hcall hwrites rfl
  | installCert =>
    cases h
    exact .clicked rfl
  | generated e =>
    simp only [next] at h
    split at h
    · rename_i i he
      obtain ⟨call, hcall, h⟩ := Option.bind_eq_some_iff.mp h
      obtain ⟨went, hwent, h⟩ := Option.bind_eq_some_iff.mp h
      cases h
      exact .took he hcall hwent
    · cases h
  | saveFile e path =>
    simp only [next] at h
    split at h
    · rename_i cert he
      cases h
      refine .chose he ?_
      cases path with
      | none => exact Or.inl rfl
      | some path => exact Or.inr ⟨path, rfl⟩
    · cases h
  | create e fails =>
    simp only [next] at h
    split at h
    · rename_i path cert he
      cases fails with
      | true =>
        cases h
        exact .notOpened he
      | false =>
        cases h
        exact .opened he
    · cases h
  | writeAll e written =>
    simp only [next] at h
    split at h
    · rename_i path cert he
      cases written with
      | whole =>
        cases h
        exact .wrote he (Or.inl rfl)
      | tailLost =>
        cases h
        exact .wrote he (Or.inr rfl)
      | cutShort =>
        cases h
        exact .cut he
    · cases h

/-- What has been put into a file: a certificate elsewhere than in the place of the key, or what
does not parse. -/
inductive Put (w : ExportWorld) (path : SavePath) (cert : KeyPair) (w' : ExportWorld) : Prop
  | cert (hpath : path ≠ .caKey) (hdir : w'.ca.dir = w.ca.dir.set path cert)
      (hspoiled : w'.spoiled = w.spoiled)
  | spoiled {content : KeyPair} (hdir : w'.ca.dir = w.ca.dir.set path content)
      (hspoiled : w'.spoiled = w.spoiled ++ [content])

theorem Put.key (h : w.Put path cert w') : w'.ca.dir.key = w.ca.dir.key ∨
    (path = .caKey ∧ ∃ k ∈ w'.ca.dir.key, k ∈ w'.spoiled) := by
  cases h with
  | cert hpath hdir hspoiled =>
    rw [hdir]
    cases path with
    | caKey => exact (hpath rfl).elim
    | _ => exact Or.inl rfl
  | @spoiled content hdir hspoiled =>
    rw [hdir, hspoiled]
    cases path with
    | caKey => exact Or.inr ⟨rfl, content, rfl, List.mem_append_right _ (List.mem_singleton_self _)⟩
    | _ => exact Or.inl rfl

theorem Put.crt (h : w.Put path cert w') : w'.ca.dir.crt = w.ca.dir.crt ∨
    (path = .caCrt ∧ (w'.ca.dir.crt = some cert ∨ ∃ c ∈ w'.ca.dir.crt, c ∈ w'.spoiled)) := by
  cases h with
  | cert hpath hdir hspoiled =>
    rw [hdir]
    cases path with
    | caCrt => exact Or.inr ⟨rfl, Or.inl rfl⟩
    | _ => exact Or.inl rfl
  | @spoiled content hdir hspoiled =>
    rw [hdir, hspoiled]
    cases path with
    | caCrt =>
      refine Or.inr ⟨rfl, Or.inr ⟨content, rfl, ?_⟩⟩
      exact List.mem_append_right _ (List.mem_singleton_self _)
    | _ => exact Or.inl rfl

section Task
variable {e : Nat} {task went : Export}

end Task

end ExportWorld

end AppComponts
