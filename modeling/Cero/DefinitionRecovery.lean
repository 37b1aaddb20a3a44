import Cero.DefinitionTotal

namespace Cero.Parser

end Cero.Parser
