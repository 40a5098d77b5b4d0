import ProxyTrace.Value

/-!
Proxies as keys. Number proxies compare by value; a variable compares by name alone.
-/

namespace ProxyTrace

/-- A proxy that is told from others by its name. -/
structure Variable where
  proxy : Proxy

namespace Variable

def name (v : Variable) : Name := v.proxy.name

instance : BEq Variable := ⟨fun v w => v.name == w.name⟩

instance : Hashable Variable := ⟨fun v => hash v.name⟩

def text (v : Variable) : String := v.name

/-- One variable of each name, in the order of their first places. -/
def distinct (vs : List Variable) : List Variable := vs.eraseDupsBy fun v w => v.name == w.name

end Variable

/-- A value whose proxy, if it is one, is a variable. -/
inductive Keyed where
  | key (v : Variable)
  | plain (v : Value)

namespace Keyed

def ofValue : Value → Keyed
  | .proxy p => key ⟨p⟩
  | v => plain v

def toValue : Keyed → Value
  | key v => .proxy v.proxy
  | plain v => v

@[simp] theorem toValue_ofValue (v : Value) : (ofValue v).toValue = v := by
  cases v <;> rfl

end Keyed

end ProxyTrace
