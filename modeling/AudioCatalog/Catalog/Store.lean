import AudioCatalog.Catalog.Session

namespace AudioCatalog.Catalog

structure Store where
  published : State := {}
  session? : Option State := none
deriving DecidableEq

namespace Store

inductive Refusal where
  | sessionOpen
  | noSession
deriving DecidableEq

def beginSession (store : Store) : Except Refusal Store :=
  match store.session? with
  | some _ => .error .sessionOpen
  | none => .ok { store with session? := some store.published }

def commit (store : Store) : Except Refusal Store :=
  match store.session? with
  | some s => .ok ⟨s, none⟩
  | none => .error .noSession

def abort (store : Store) : Except Refusal Store :=
  match store.session? with
  | some _ => .ok { store with session? := none }
  | none => .error .noSession

def current (store : Store) : State := store.session?.getD store.published

/-- Works within the open session, which stays open whether or not the work succeeds. -/
def within {α : Type} (store : Store) (work : Session α) : Except Refusal (Except Error α × Store) :=
  match store.session? with
  | none => .error .noSession
  | some s =>
    match work s with
    | .ok a s => .ok (.ok a, { store with session? := some s })
    | .error e s => .ok (.error e, { store with session? := some s })

end Store

def State.transact {α : Type} (s : State) (work : Session α) : Except Error (α × State) :=
  match work s with
  | .ok a s => .ok (a, s)
  | .error e _ => .error e

end AudioCatalog.Catalog
