import Drydock.Proofs.Precheck

/-! Bodies of here-documents. While a delimiter is awaited, the first check
compares each line with it and with nothing else, so a file whose bodies are
rewritten gets the same remarks. -/
namespace Drydock.Precheck

end Drydock.Precheck
